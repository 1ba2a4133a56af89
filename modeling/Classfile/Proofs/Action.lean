import Classfile.Action

/-!
# Outcomes of actions

An action on a state either gives a result or fails, and in both cases leads to another state. The
two relations below are taken apart along the steps of the action, so that a composed action is read
from its parts without running it.
-/

namespace Classfile.Action

variable {σ τ α β : Type} {s s' : σ}

def Gives (x : Action σ α) (s : σ) (a : α) (s' : σ) : Prop :=
  (x s).result = .ok a ∧ (x s).state = s'

def Fails (x : Action σ α) (s : σ) (e : Error) (s' : σ) : Prop :=
  (x s).result = .error e ∧ (x s).state = s'

theorem gives_of_result {x : Action σ α} {a : α} (h : (x s).result = .ok a) :
    Gives x s a (x s).state :=
  ⟨h, rfl⟩

theorem gives_or_fails (x : Action σ α) (s : σ) :
    (∃ a, Gives x s a (x s).state) ∨ ∃ e, Fails x s e (x s).state := by
  cases h : (x s).result with
  | ok a => exact .inl ⟨a, h, rfl⟩
  | error e => exact .inr ⟨e, h, rfl⟩

/-! ### One step after another -/

@[simp]
theorem gives_pure {a b : α} : Gives (pure a) s b s' ↔ a = b ∧ s = s' := by
  simp [Gives, pure, Action.pure]

@[simp]
theorem fails_pure {a : α} {e : Error} : ¬ Fails (pure a) s e s' := by
  simp [Fails, pure, Action.pure]

theorem gives_bind {x : Action σ α} {f : α → Action σ β} {b : β} :
    Gives (x >>= f) s b s' ↔ ∃ a mid, Gives x s a mid ∧ Gives (f a) mid b s' := by
  simp only [Gives, bind, Action.bind]
  rcases x s with ⟨e | a, mid, events⟩
  · simp
  · constructor
    · exact fun h => ⟨a, mid, ⟨rfl, rfl⟩, h⟩
    · rintro ⟨_, _, ⟨⟨rfl⟩, rfl⟩, h⟩
      exact h

theorem fails_bind {x : Action σ α} {f : α → Action σ β} {e : Error} :
    Fails (x >>= f) s e s' ↔
      Fails x s e s' ∨ ∃ a mid, Gives x s a mid ∧ Fails (f a) mid e s' := by
  simp only [Fails, Gives, bind, Action.bind]
  rcases x s with ⟨e' | a, mid, events⟩
  · simp
  · constructor
    · exact fun h => .inr ⟨a, mid, ⟨rfl, rfl⟩, h⟩
    · rintro (⟨⟨⟩, -⟩ | ⟨_, _, ⟨⟨rfl⟩, rfl⟩, h⟩)
      exact h

/-- Once the first step has given its result, the second decides. -/
theorem bind_of_gives {x : Action σ α} {a : α} (h : Gives x s a s') (f : α → Action σ β) :
    ((x >>= f) s).result = (f a s').result ∧ ((x >>= f) s).state = (f a s').state := by
  obtain ⟨hresult, rfl⟩ := h
  simp only [bind, Action.bind]
  rcases hx : x s with ⟨e | b, mid, events⟩
  · rw [hx] at hresult
    cases hresult
  · rw [hx] at hresult
    cases hresult
    exact ⟨rfl, rfl⟩

protected theorem bind_assoc {γ : Type} (x : Action σ α) (f : α → Action σ β)
    (g : β → Action σ γ) : x >>= f >>= g = x >>= fun a => f a >>= g := by
  funext s
  simp only [bind, Action.bind]
  rcases x s with ⟨e | a, mid, events⟩
  · rfl
  · rcases hf : f a mid with ⟨e | b, last, more⟩ <;> simp [hf]

protected theorem bind_pure (x : Action σ Unit) : (x >>= fun _ => pure ()) = x := by
  funext s
  simp only [bind, Action.bind]
  rcases hx : x s with ⟨e | a, mid, events⟩ <;> simp [pure, Action.pure]

theorem result_bind_pure (x : Action σ α) (f : α → β) (s : σ) :
    ((x >>= fun a => pure (f a)) s).result = (x s).result.map f := by
  simp only [bind, Action.bind]
  rcases x s with ⟨e | a, mid, events⟩ <;> rfl

theorem state_bind_pure (x : Action σ α) (f : α → β) (s : σ) :
    ((x >>= fun a => pure (f a)) s).state = (x s).state := by
  simp only [bind, Action.bind]
  rcases x s with ⟨e | a, mid, events⟩ <;> rfl

theorem gives_bind_pure {x : Action σ α} {f : α → β} {b : β} :
    Gives (x >>= fun a => pure (f a)) s b s' ↔ ∃ a, Gives x s a s' ∧ f a = b := by
  simp only [gives_bind, gives_pure]
  constructor
  · rintro ⟨a, _, hx, rfl, rfl⟩
    exact ⟨a, hx, rfl⟩
  · rintro ⟨a, hx, rfl⟩
    exact ⟨a, s', hx, rfl, rfl⟩

theorem fails_bind_pure {x : Action σ α} {f : α → β} {e : Error} :
    Fails (x >>= fun a => pure (f a)) s e s' ↔ Fails x s e s' := by
  simp [fails_bind]

/-! ### Single steps -/

@[simp]
theorem gives_fail {e : Error} {a : α} : ¬ Gives (fail e) s a s' := by
  simp [Gives, fail]

@[simp]
theorem fails_fail {e e' : Error} : Fails (fail e : Action σ α) s e' s' ↔ e = e' ∧ s = s' := by
  simp [Fails, fail]

@[simp]
theorem gives_report {event : Event} {u : Unit} : Gives (report event) s u s' ↔ s = s' := by
  simp [Gives, report]

@[simp]
theorem fails_report {event : Event} {e : Error} : ¬ Fails (report event) s e s' := by
  simp [Fails, report]

@[simp]
theorem gives_ofExcept {x : Except Error α} {a : α} :
    Gives (ofExcept x) s a s' ↔ x = .ok a ∧ s = s' := by
  simp [Gives, ofExcept]

@[simp]
theorem fails_ofExcept {x : Except Error α} {e : Error} :
    Fails (ofExcept x) s e s' ↔ x = .error e ∧ s = s' := by
  simp [Fails, ofExcept]

@[simp]
theorem gives_gets {f : σ → α} {a : α} : Gives (gets f) s a s' ↔ f s = a ∧ s = s' := by
  simp [Gives, gets]

@[simp]
theorem fails_gets {f : σ → α} {e : Error} : ¬ Fails (gets f) s e s' := by
  simp [Fails, gets]

@[simp]
theorem gives_modify {f : σ → σ} {u : Unit} : Gives (modify f) s u s' ↔ f s = s' := by
  simp [Gives, modify]

@[simp]
theorem fails_modify {f : σ → σ} {e : Error} : ¬ Fails (modify f) s e s' := by
  simp [Fails, modify]

/-! ### Single steps that come first -/

section First

variable {b : β} {e : Error}

@[simp]
theorem gives_gets_bind {f : σ → α} {g : α → Action σ β} :
    Gives (gets f >>= g) s b s' ↔ Gives (g (f s)) s b s' := Iff.rfl

@[simp]
theorem fails_gets_bind {f : σ → α} {g : α → Action σ β} :
    Fails (gets f >>= g) s e s' ↔ Fails (g (f s)) s e s' := Iff.rfl

@[simp]
theorem gives_modify_bind {f : σ → σ} {g : Unit → Action σ β} :
    Gives (modify f >>= g) s b s' ↔ Gives (g ()) (f s) b s' := Iff.rfl

@[simp]
theorem fails_modify_bind {f : σ → σ} {g : Unit → Action σ β} :
    Fails (modify f >>= g) s e s' ↔ Fails (g ()) (f s) e s' := Iff.rfl

@[simp]
theorem gives_report_bind {event : Event} {g : Unit → Action σ β} :
    Gives (report event >>= g) s b s' ↔ Gives (g ()) s b s' := Iff.rfl

@[simp]
theorem fails_report_bind {event : Event} {g : Unit → Action σ β} :
    Fails (report event >>= g) s e s' ↔ Fails (g ()) s e s' := Iff.rfl

@[simp]
theorem gives_fail_bind {g : α → Action σ β} : ¬ Gives (fail e >>= g) s b s' := by
  simp [gives_bind]

@[simp]
theorem fails_fail_bind {e' : Error} {g : α → Action σ β} :
    Fails (fail e' >>= g) s e s' ↔ e' = e ∧ s = s' := by
  simp [fails_bind]

@[simp]
theorem gives_ofExcept_bind {x : Except Error α} {g : α → Action σ β} :
    Gives (ofExcept x >>= g) s b s' ↔ ∃ a, x = .ok a ∧ Gives (g a) s b s' := by
  simp [gives_bind, and_assoc]

@[simp]
theorem fails_ofExcept_bind {x : Except Error α} {g : α → Action σ β} :
    Fails (ofExcept x >>= g) s e s' ↔
      (x = .error e ∧ s = s') ∨ ∃ a, x = .ok a ∧ Fails (g a) s e s' := by
  simp [fails_bind, and_assoc]

end First

/-! ### Actions on parts of the state -/

variable {t : τ} {p : σ × τ}

@[simp]
theorem gives_onFst {x : Action σ α} {a : α} :
    Gives (onFst x) (s, t) a p ↔ Gives x s a p.1 ∧ t = p.2 := by
  simp [Gives, onFst, Prod.ext_iff, and_assoc]

@[simp]
theorem fails_onFst {x : Action σ α} {e : Error} :
    Fails (onFst x) (s, t) e p ↔ Fails x s e p.1 ∧ t = p.2 := by
  simp [Fails, onFst, Prod.ext_iff, and_assoc]

@[simp]
theorem gives_onFstWith {x : τ → Action σ α} {a : α} :
    Gives (onFstWith x) (s, t) a p ↔ Gives (x t) s a p.1 ∧ t = p.2 := by
  simp [Gives, onFstWith, Prod.ext_iff, and_assoc]

@[simp]
theorem fails_onFstWith {x : τ → Action σ α} {e : Error} :
    Fails (onFstWith x) (s, t) e p ↔ Fails (x t) s e p.1 ∧ t = p.2 := by
  simp [Fails, onFstWith, Prod.ext_iff, and_assoc]

@[simp]
theorem gives_onSnd {x : Action τ α} {a : α} :
    Gives (onSnd x) (s, t) a p ↔ s = p.1 ∧ Gives x t a p.2 := by
  simp [Gives, onSnd, Prod.ext_iff, and_left_comm]

@[simp]
theorem fails_onSnd {x : Action τ α} {e : Error} :
    Fails (onSnd x) (s, t) e p ↔ s = p.1 ∧ Fails x t e p.2 := by
  simp [Fails, onSnd, Prod.ext_iff, and_left_comm]

@[simp]
theorem gives_onFst_modify_bind {f : σ → σ} {g : Unit → Action (σ × τ) β} {b : β} :
    Gives (onFst (modify f) >>= g) (s, t) b p ↔ Gives (g ()) (f s, t) b p := Iff.rfl

@[simp]
theorem fails_onFst_modify_bind {f : σ → σ} {g : Unit → Action (σ × τ) β} {e : Error} :
    Fails (onFst (modify f) >>= g) (s, t) e p ↔ Fails (g ()) (f s, t) e p := Iff.rfl

/-! ### Sequences -/

/-- The two differ in the events they report only. -/
def Alike (x y : Action σ α) : Prop :=
  ∀ s, (x s).result = (y s).result ∧ (x s).state = (y s).state

theorem Alike.gives_iff {x y : Action σ α} (h : Alike x y) {a : α} :
    Gives x s a s' ↔ Gives y s a s' := by
  rw [Gives, Gives, (h s).1, (h s).2]

theorem Alike.fails_iff {x y : Action σ α} (h : Alike x y) {e : Error} :
    Fails x s e s' ↔ Fails y s e s' := by
  rw [Fails, Fails, (h s).1, (h s).2]

/-- What is gathered so far neither stops a traversal nor changes the state. -/
theorem traverseFrom_eq (f : α → Action σ β) (items : List α) (results : List β)
    (events : List Event) (s : σ) :
    (traverseFrom f items results events s).result =
        (traverse f items s).result.map (results.reverse ++ ·) ∧
      (traverseFrom f items results events s).state = (traverse f items s).state := by
  induction items generalizing results events s with
  | nil => simp [traverse, traverseFrom, Except.map]
  | cons a rest ih =>
    simp only [traverse, traverseFrom]
    rcases f a s with ⟨e | b, mid, more⟩
    · simp [Except.map]
    · obtain ⟨hresult, hstate⟩ := ih (b :: results) (more.reverse ++ events) mid
      obtain ⟨hresult', hstate'⟩ := ih [b] (more.reverse ++ []) mid
      simp only [hstate, hresult, hstate', hresult']
      cases (traverse f rest mid).result <;> simp [Except.map]

theorem alike_traverse_cons (f : α → Action σ β) (a : α) (rest : List α) :
    Alike (traverse f (a :: rest)) (do
      let b ← f a
      let more ← traverse f rest
      return b :: more) := by
  intro s
  simp only [traverse, traverseFrom, bind, Action.bind]
  rcases f a s with ⟨e | b, mid, events⟩
  · exact ⟨rfl, rfl⟩
  · obtain ⟨hresult, hstate⟩ := traverseFrom_eq f rest [b] (events.reverse ++ []) mid
    simp only [hresult, hstate, traverse]
    rcases traverseFrom f rest [] [] mid with ⟨e | more, last, events⟩ <;> exact ⟨rfl, rfl⟩

@[simp]
theorem gives_traverse_nil {f : α → Action σ β} {results : List β} :
    Gives (traverse f []) s results s' ↔ results = [] ∧ s = s' := by
  simp [Gives, traverse, traverseFrom, eq_comm]

@[simp]
theorem gives_traverse_cons {f : α → Action σ β} {a : α} {rest : List α} {results : List β} :
    Gives (traverse f (a :: rest)) s results s' ↔
      ∃ b mid more, Gives (f a) s b mid ∧ Gives (traverse f rest) mid more s' ∧
        results = b :: more := by
  rw [(alike_traverse_cons f a rest).gives_iff]
  simp only [gives_bind, gives_pure]
  constructor
  · rintro ⟨b, mid, hb, more, _, hmore, rfl, rfl⟩
    exact ⟨b, mid, more, hb, hmore, rfl⟩
  · rintro ⟨b, mid, more, hb, hmore, rfl⟩
    exact ⟨b, mid, hb, more, s', hmore, rfl, rfl⟩

/-- What is gathered so far stays in front and changes nothing else. -/
theorem traverseStatesFrom_eq (step : Action (α × σ) β) (items done : List α) (results : List β)
    (events : List Event) (s : σ) :
    (traverseStatesFrom step items done results events s).result =
        (traverseStates step (items, s)).result.map (results.reverse ++ ·) ∧
      (traverseStatesFrom step items done results events s).state =
        (done.reverse ++ (traverseStates step (items, s)).state.1,
          (traverseStates step (items, s)).state.2) := by
  induction items generalizing done results events s with
  | nil => simp [traverseStates, traverseStatesFrom, Except.map]
  | cons a rest ih =>
    simp only [traverseStates, traverseStatesFrom]
    rcases step (a, s) with ⟨e | b, ⟨a', mid⟩, more⟩
    · simp [Except.map, List.reverseAux_eq]
    · obtain ⟨hresult, hstate⟩ := ih (a' :: done) (b :: results) (more.reverse ++ events) mid
      obtain ⟨hresult', hstate'⟩ := ih [a'] [b] (more.reverse ++ []) mid
      simp only [hresult, hstate, hresult', hstate']
      cases (traverseStates step (rest, mid)).result <;> simp [Except.map]

@[simp]
theorem gives_traverseStates_nil {step : Action (α × σ) β} {final : List α} {results : List β} :
    Gives (traverseStates step) ([], s) results (final, s') ↔
      results = [] ∧ final = [] ∧ s = s' := by
  simp [Gives, traverseStates, traverseStatesFrom, eq_comm]

/-- After the first step the others go on from the state it left. -/
theorem traverseStates_of_gives {step : Action (α × σ) β} {a a' : α} {b : β} {mid : σ}
    (h : Gives step (a, s) b (a', mid)) (rest : List α) :
    (traverseStates step (a :: rest, s)).result =
        (traverseStates step (rest, mid)).result.map (b :: ·) ∧
      (traverseStates step (a :: rest, s)).state =
        (a' :: (traverseStates step (rest, mid)).state.1,
          (traverseStates step (rest, mid)).state.2) := by
  obtain ⟨hresult, hstate⟩ := h
  rcases hstep : step (a, s) with ⟨e | b', ⟨a'', mid'⟩, events⟩
  · rw [hstep] at hresult
    cases hresult
  · rw [hstep] at hresult hstate
    cases hresult
    cases hstate
    simp only [traverseStates, traverseStatesFrom, hstep]
    exact traverseStatesFrom_eq step rest [a'] [b] (events.reverse ++ []) mid

theorem fails_traverseStates_of_fails {step : Action (α × σ) β} {a a' : α} {e : Error}
    (h : Fails step (a, s) e (a', s')) (rest : List α) :
    Fails (traverseStates step) (a :: rest, s) e (a' :: rest, s') := by
  obtain ⟨hresult, hstate⟩ := h
  rcases hstep : step (a, s) with ⟨e' | b, ⟨a'', mid⟩, events⟩
  · rw [hstep] at hresult hstate
    cases hresult
    cases hstate
    simp [Fails, traverseStates, traverseStatesFrom, hstep, List.reverseAux]
  · rw [hstep] at hresult
    cases hresult

theorem gives_traverseStates_cons {step : Action (α × σ) β} {a : α} {rest final : List α}
    {results : List β} (h : Gives (traverseStates step) (a :: rest, s) results (final, s')) :
    ∃ b a' mid more others, Gives step (a, s) b (a', mid) ∧
      Gives (traverseStates step) (rest, mid) more (others, s') ∧
      results = b :: more ∧ final = a' :: others := by
  obtain ⟨b, hb⟩ | ⟨e, he⟩ := gives_or_fails step (a, s)
  · obtain ⟨hresult, hstate⟩ := traverseStates_of_gives hb rest
    rw [Gives, hresult, hstate] at h
    obtain ⟨hresults, hfinal⟩ := h
    cases hmore : (traverseStates step (rest, (step (a, s)).state.2)).result with
    | error e =>
      rw [hmore] at hresults
      cases hresults
    | ok more =>
      rw [hmore] at hresults
      cases hresults
      cases hfinal
      exact ⟨b, _, _, more, _, hb, ⟨hmore, rfl⟩, rfl, rfl⟩
  · have hfails := (fails_traverseStates_of_fails he rest).1
    rw [h.1] at hfails
    cases hfails

/-- A traversal fails at its first step, or at a later one. -/
theorem fails_traverseStates_cons {step : Action (α × σ) β} {a : α} {rest final : List α}
    {e : Error} (h : Fails (traverseStates step) (a :: rest, s) e (final, s')) :
    (∃ a', Fails step (a, s) e (a', s') ∧ final = a' :: rest) ∨
      ∃ b a' mid others, Gives step (a, s) b (a', mid) ∧
        Fails (traverseStates step) (rest, mid) e (others, s') ∧ final = a' :: others := by
  obtain ⟨b, hb⟩ | ⟨e', he⟩ := gives_or_fails step (a, s)
  · obtain ⟨hresult, hstate⟩ := traverseStates_of_gives hb rest
    rw [Fails, hresult, hstate] at h
    obtain ⟨hresults, hfinal⟩ := h
    cases hmore : (traverseStates step (rest, (step (a, s)).state.2)).result with
    | error e =>
      rw [hmore] at hresults
      cases hresults
      cases hfinal
      exact .inr ⟨b, _, _, _, hb, ⟨hmore, rfl⟩, rfl⟩
    | ok more =>
      rw [hmore] at hresults
      cases hresults
  · have hfails := fails_traverseStates_of_fails he rest
    have hsame : e' = e := by simpa [h.1] using hfails.1.symm
    have hstate := h.2.symm.trans hfails.2
    subst hsame
    cases hstate
    exact .inl ⟨_, he, rfl⟩

/-! ### Relations between the states before and after -/

/-- The states before and after the action are related, also if it fails. -/
def Moves (R : σ → σ → Prop) (x : Action σ α) : Prop := ∀ s, R s (x s).state

variable {R : σ → σ → Prop}

theorem Moves.of_gives {x : Action σ α} (h : Moves R x) {a : α} (hgives : Gives x s a s') :
    R s s' :=
  hgives.2 ▸ h s

theorem Moves.of_fails {x : Action σ α} (h : Moves R x) {e : Error} (hfails : Fails x s e s') :
    R s s' :=
  hfails.2 ▸ h s

theorem moves_bind [Trans R R R] {x : Action σ α} {f : α → Action σ β} (hx : Moves R x)
    (hf : ∀ a, Moves R (f a)) : Moves R (x >>= f) := by
  intro s
  have hfirst := hx s
  simp only [bind, Action.bind]
  rcases h : x s with ⟨e | a, mid, events⟩
  · simpa [h] using hfirst
  · rw [h] at hfirst
    exact Trans.trans hfirst (hf a mid)

theorem moves_gets_bind {f : σ → α} {g : α → Action σ β} (h : ∀ s, Moves R (g (f s))) :
    Moves R (gets f >>= g) :=
  fun s => h s s

variable [Std.Refl R]

theorem moves_pure (a : α) : Moves R (pure a : Action σ α) := fun s => Std.Refl.refl s

theorem moves_gets (f : σ → α) : Moves R (gets f) := fun s => Std.Refl.refl s

theorem moves_report (event : Event) : Moves R (report event) := fun s => Std.Refl.refl s

theorem moves_ofExcept (x : Except Error α) : Moves R (ofExcept x) := fun s => Std.Refl.refl s

theorem moves_traverse [Trans R R R] {f : α → Action σ β} (hf : ∀ a, Moves R (f a))
    (items : List α) : Moves R (traverse f items) := by
  suffices h : ∀ (results : List β) (events : List Event) (s : σ),
      R s (traverseFrom f items results events s).state from h [] []
  induction items with
  | nil => exact fun _ _ s => Std.Refl.refl s
  | cons a rest ih =>
    intro results events s
    have hfirst := hf a s
    rw [traverseFrom]
    rcases h : f a s with ⟨e | b, mid, more⟩
    · simpa [h] using hfirst
    · rw [h] at hfirst
      exact Trans.trans hfirst (ih _ _ mid)

theorem moves_fail (e : Error) : Moves R (fail e : Action σ α) := fun s => Std.Refl.refl s

/-- What holds before holds after. -/
def Preserves (P : σ → Prop) (s s' : σ) : Prop := P s → P s'

instance (P : σ → Prop) : Std.Refl (Preserves P) := ⟨fun _ => id⟩

instance (P : σ → Prop) : Trans (Preserves P) (Preserves P) (Preserves P) :=
  ⟨fun hab hbc h => hbc (hab h)⟩

end Classfile.Action
