import Classfile.Proofs.Action
import Mathlib.Data.List.Forall2

/-!
# Actions done again

An action that looks for what it needs before it adds it can be done again: it finds what it left,
so it gives the same result and changes nothing more. If it failed, it fails again for the same
reason. This is kept by sequencing, as long as later steps do not undo what earlier ones left.
-/

namespace Classfile.Action

variable {σ α β : Type} {s s' : σ} {R : σ → σ → Prop}

/-- The action gives its result again in every later state, and fails again where it has failed,
both times without a change. The relation leads from a state to the later ones. -/
structure Repeats (R : σ → σ → Prop) (x : Action σ α) : Prop where
  moves : Moves R x
  gives : ∀ {s a s' later}, Gives x s a s' → R s' later → Gives x later a later
  fails : ∀ {s e s'}, Fails x s e s' → Fails x s' e s'

theorem Repeats.congr {x y : Action σ α} (hx : Repeats R x) (h : Alike x y) : Repeats R y where
  moves s := (h s).2 ▸ hx.moves s
  gives hgives hlater := h.gives_iff.mp (hx.gives (h.gives_iff.mpr hgives) hlater)
  fails hfails := h.fails_iff.mp (hx.fails (h.fails_iff.mpr hfails))

theorem Repeats.bind [Trans R R R] {x : Action σ α} {f : α → Action σ β} (hx : Repeats R x)
    (hf : ∀ a, Repeats R (f a)) : Repeats R (x >>= f) where
  moves := moves_bind hx.moves fun a => (hf a).moves
  gives h hlater := by
    obtain ⟨a, mid, ha, hb⟩ := gives_bind.mp h
    have hmid := (hf a).moves.of_gives hb
    exact gives_bind.mpr ⟨a, _, hx.gives ha (Trans.trans hmid hlater), (hf a).gives hb hlater⟩
  fails h := by
    obtain h | ⟨a, mid, ha, he⟩ := fails_bind.mp h
    · exact fails_bind.mpr (.inl (hx.fails h))
    · have hmid := (hf a).moves.of_fails he
      exact fails_bind.mpr (.inr ⟨a, _, hx.gives ha hmid, (hf a).fails he⟩)

/-- Nothing is left to be found again if the action depends on nothing that may change. -/
theorem repeats_of_pure [Std.Refl R] {x : Action σ α} (hstate : ∀ s, (x s).state = s)
    (hresult : ∀ s later, R s later → (x later).result = (x s).result) : Repeats R x where
  moves s := (hstate s).symm ▸ Std.Refl.refl s
  gives h hlater := by
    obtain ⟨hgives, rfl⟩ := h
    rw [hstate] at hlater
    exact ⟨(hresult _ _ hlater).trans hgives, hstate _⟩
  fails h := by
    obtain ⟨hfails, rfl⟩ := h
    rw [hstate]
    exact ⟨hfails, hstate _⟩

section Pure

variable [Std.Refl R]

theorem repeats_pure (a : α) : Repeats R (pure a : Action σ α) :=
  repeats_of_pure (fun _ => rfl) fun _ _ _ => rfl

theorem repeats_fail (e : Error) : Repeats R (fail e : Action σ α) :=
  repeats_of_pure (fun _ => rfl) fun _ _ _ => rfl

theorem repeats_report (event : Event) : Repeats R (report event) :=
  repeats_of_pure (fun _ => rfl) fun _ _ _ => rfl

theorem repeats_ofExcept (x : Except Error α) : Repeats R (ofExcept x) :=
  repeats_of_pure (fun _ => rfl) fun _ _ _ => rfl

theorem repeats_traverse [Trans R R R] {f : α → Action σ β} (hf : ∀ a, Repeats R (f a))
    (items : List α) : Repeats R (Action.traverse f items) := by
  induction items with
  | nil => exact repeats_pure []
  | cons a rest ih =>
    have hcons := (hf a).bind fun b => ih.bind fun more => repeats_pure (b :: more)
    exact hcons.congr fun s => ⟨(alike_traverse_cons f a rest s).1.symm,
      (alike_traverse_cons f a rest s).2.symm⟩

end Pure

/-! ### Parts of the state -/

/-- Both parts of the state may be replaced by later ones. -/
def Both (A : α → α → Prop) (R : σ → σ → Prop) (p later : α × σ) : Prop :=
  A p.1 later.1 ∧ R p.2 later.2

variable {A : α → α → Prop}

instance [Std.Refl A] [Std.Refl R] : Std.Refl (Both A R) :=
  ⟨fun p => ⟨Std.Refl.refl p.1, Std.Refl.refl p.2⟩⟩

instance [Trans A A A] [Trans R R R] : Trans (Both A R) (Both A R) (Both A R) :=
  ⟨fun hab hbc => ⟨Trans.trans hab.1 hbc.1, Trans.trans hab.2 hbc.2⟩⟩

theorem repeats_onSnd [Std.Refl A] {x : Action σ β} (h : Repeats R x) :
    Repeats (Both A R) (onSnd x) where
  moves p := ⟨Std.Refl.refl p.1, h.moves p.2⟩
  gives hgives hlater := gives_onSnd.mpr ⟨rfl, h.gives (gives_onSnd.mp hgives).2 hlater.2⟩
  fails hfails := fails_onSnd.mpr ⟨rfl, h.fails (fails_onSnd.mp hfails).2⟩

/-- The later value is the same, or what the map makes of it. -/
def Perhaps (f : α → α) (a later : α) : Prop := later = a ∨ later = f a

instance (f : α → α) : Std.Refl (Perhaps f) := ⟨fun _ => .inl rfl⟩

theorem Perhaps.trans {f : α → α} (hf : ∀ a, f (f a) = f a) {a b c : α} (hab : Perhaps f a b)
    (hbc : Perhaps f b c) : Perhaps f a c := by
  obtain rfl | rfl := hab
  · exact hbc
  · obtain rfl | rfl := hbc
    · exact .inr rfl
    · exact .inr (hf a)

/-- What the map has made is not changed any more. -/
theorem Perhaps.eq {f : α → α} (hf : ∀ a, f (f a) = f a) {a later : α}
    (h : Perhaps f (f a) later) : later = f a := by
  obtain rfl | rfl := h
  · rfl
  · exact hf a

/-! ### Actions that change their elements -/

theorem forall₂_trans [Trans A A A] {as bs cs : List α} (hab : List.Forall₂ A as bs)
    (hbc : List.Forall₂ A bs cs) : List.Forall₂ A as cs := by
  induction hab generalizing cs with
  | nil => exact hbc
  | cons hhead _ ih =>
    cases hbc with
    | cons hhead' htail' => exact .cons (Trans.trans hhead hhead') (ih htail')

section States

variable [Std.Refl A] [Std.Refl R] [Trans R R R] {step : Action (α × σ) β}

theorem moves_traverseStates (h : Moves (Both A R) step) :
    Moves (Both (List.Forall₂ A) R) (traverseStates step) := by
  rintro ⟨items, s⟩
  induction items generalizing s with
  | nil => exact ⟨.nil, Std.Refl.refl s⟩
  | cons a rest ih =>
    have hfirst := h (a, s)
    obtain ⟨b, hb⟩ | ⟨e, he⟩ := gives_or_fails step (a, s)
    · rw [(traverseStates_of_gives hb rest).2]
      exact ⟨.cons hfirst.1 (ih _).1, Trans.trans hfirst.2 (ih _).2⟩
    · rw [(fails_traverseStates_of_fails he rest).2]
      exact ⟨.cons hfirst.1 (List.forall₂_refl rest), hfirst.2⟩

theorem gives_traverseStates_again (h : Repeats (Both A R) step) {items final later : List α}
    {results : List β} {t : σ}
    (hgives : Gives (traverseStates step) (items, s) results (final, s'))
    (hitems : List.Forall₂ A final later) (ht : R s' t) :
    Gives (traverseStates step) (later, t) results (later, t) := by
  induction items generalizing s final later results with
  | nil =>
    obtain ⟨rfl, rfl, rfl⟩ := gives_traverseStates_nil.mp hgives
    cases hitems
    exact gives_traverseStates_nil.mpr ⟨rfl, rfl, rfl⟩
  | cons a rest ih =>
    obtain ⟨b, a', mid, more, others, hfirst, hrest, rfl, rfl⟩ := gives_traverseStates_cons hgives
    cases hitems with
    | @cons _ a'' _ others' hhead htail =>
      have hmid : R mid s' := ((moves_traverseStates h.moves).of_gives hrest).2
      have hagain : Gives step (a'', t) b (a'', t) := h.gives hfirst ⟨hhead, Trans.trans hmid ht⟩
      obtain ⟨hresult, hstate⟩ := ih hrest htail
      obtain ⟨hresult', hstate'⟩ := traverseStates_of_gives hagain others'
      rw [hresult] at hresult'
      rw [hstate] at hstate'
      exact ⟨hresult', hstate'⟩

theorem fails_traverseStates_again (h : Repeats (Both A R) step) {items final : List α} {e : Error}
    (hfails : Fails (traverseStates step) (items, s) e (final, s')) :
    Fails (traverseStates step) (final, s') e (final, s') := by
  induction items generalizing s final with
  | nil => cases hfails.1
  | cons a rest ih =>
    obtain ⟨a', hfirst, rfl⟩ | ⟨b, a', mid, others, hfirst, hrest, rfl⟩ :=
      fails_traverseStates_cons hfails
    · exact fails_traverseStates_of_fails (h.fails hfirst) rest
    · have hmid : R mid s' := ((moves_traverseStates h.moves).of_fails hrest).2
      have hagain : Gives step (a', s') b (a', s') := h.gives hfirst ⟨Std.Refl.refl a', hmid⟩
      obtain ⟨hresult, hstate⟩ := ih hrest
      obtain ⟨hresult', hstate'⟩ := traverseStates_of_gives hagain others
      rw [hresult] at hresult'
      rw [hstate] at hstate'
      exact ⟨hresult', hstate'⟩

theorem repeats_traverseStates (h : Repeats (Both A R) step) :
    Repeats (Both (List.Forall₂ A) R) (traverseStates step) where
  moves := moves_traverseStates h.moves
  gives hgives hlater := gives_traverseStates_again h hgives hlater.1 hlater.2
  fails hfails := fails_traverseStates_again h hfails

end States

/-! ### Doing it all again -/

/-- Done twice, the action has the same result and leads to the same state as done once. -/
structure Repeatable (R : σ → σ → Prop) (x : Action σ α) : Prop where
  moves : Moves R x
  gives : ∀ {s a s'}, Gives x s a s' → Gives x s' a s'
  fails : ∀ {s e s'}, Fails x s e s' → Fails x s' e s'

theorem Repeatable.result_eq {x : Action σ α} (h : Repeatable R x) (s : σ) :
    (x (x s).state).result = (x s).result := by
  obtain ⟨a, hgives⟩ | ⟨e, hfails⟩ := gives_or_fails x s
  · rw [hgives.1, (h.gives hgives).1]
  · rw [hfails.1, (h.fails hfails).1]

theorem Repeatable.state_eq {x : Action σ α} (h : Repeatable R x) (s : σ) :
    (x (x s).state).state = (x s).state := by
  obtain ⟨a, hgives⟩ | ⟨e, hfails⟩ := gives_or_fails x s
  · exact (h.gives hgives).2
  · exact (h.fails hfails).2

/-- The last step may look at all of the state, since nothing changes after it. -/
theorem repeatable_gets [Std.Refl R] (f : σ → α) : Repeatable R (gets f) where
  moves := moves_gets f
  gives h := by
    obtain ⟨ha, rfl⟩ := gives_gets.mp h
    exact h
  fails h := absurd h fails_gets

theorem Repeats.bind_repeatable [Trans R R R] {x : Action σ α} {f : α → Action σ β}
    (hx : Repeats R x) (hf : ∀ a, Repeatable R (f a)) : Repeatable R (x >>= f) where
  moves := moves_bind hx.moves fun a => (hf a).moves
  gives h := by
    obtain ⟨a, mid, ha, hb⟩ := gives_bind.mp h
    have hlater := (hf a).moves.of_gives hb
    exact gives_bind.mpr ⟨a, _, hx.gives ha hlater, (hf a).gives hb⟩
  fails h := by
    obtain h | ⟨a, mid, ha, he⟩ := fails_bind.mp h
    · exact fails_bind.mpr (.inl (hx.fails h))
    · have hlater := (hf a).moves.of_fails he
      exact fails_bind.mpr (.inr ⟨a, _, hx.gives ha hlater, (hf a).fails he⟩)

/-- What is read first is read again, if no later step changes it. -/
theorem repeatable_gets_bind {f : σ → α} {g : α → Action σ β}
    (hf : ∀ s later, R s later → f later = f s) (hg : ∀ s, Repeatable R (g (f s))) :
    Repeatable R (gets f >>= g) where
  moves s := (hg s).moves s
  gives h := by
    rw [gives_gets_bind] at h ⊢
    rw [hf _ _ ((hg _).moves.of_gives h)]
    exact (hg _).gives h
  fails h := by
    rw [fails_gets_bind] at h ⊢
    rw [hf _ _ ((hg _).moves.of_fails h)]
    exact (hg _).fails h

/-- What does not touch the state may follow. -/
theorem Repeatable.bind [Std.Refl R] [Trans R R R] {x : Action σ α} {f : α → Action σ β}
    (hx : Repeatable R x) (hf : ∀ a, Moves Eq (f a)) : Repeatable R (x >>= f) where
  moves := moves_bind hx.moves fun a s => hf a s ▸ Std.Refl.refl s
  gives h := by
    obtain ⟨a, mid, ha, hb⟩ := gives_bind.mp h
    cases (hf a).of_gives hb
    exact gives_bind.mpr ⟨a, _, hx.gives ha, hb⟩
  fails h := by
    obtain h | ⟨a, mid, ha, he⟩ := fails_bind.mp h
    · exact fails_bind.mpr (.inl (hx.fails h))
    · cases (hf a).of_fails he
      exact fails_bind.mpr (.inr ⟨a, _, hx.gives ha, he⟩)

end Classfile.Action
