import Classfile.Error
import Classfile.Event

/-!
# Actions

An action changes a state, gives a result or fails, and reports events. What it changed before it
failed stays changed: the state after a failure is part of the outcome.
-/

namespace Classfile

structure Outcome (σ α : Type) where
  result : Except Error α
  state : σ
  events : List Event

def Action (σ α : Type) := σ → Outcome σ α

namespace Action

variable {σ τ α β : Type}

protected def pure (a : α) : Action σ α := fun s => ⟨.ok a, s, []⟩

protected def bind (x : Action σ α) (f : α → Action σ β) : Action σ β := fun s =>
  match x s with
  | ⟨.ok a, s, events⟩ =>
    match f a s with
    | ⟨result, s, more⟩ => ⟨result, s, events ++ more⟩
  | ⟨.error e, s, events⟩ => ⟨.error e, s, events⟩

instance : Monad (Action σ) where
  pure := Action.pure
  bind := Action.bind

def fail (e : Error) : Action σ α := fun s => ⟨.error e, s, []⟩

def report (event : Event) : Action σ Unit := fun s => ⟨.ok (), s, [event]⟩

def ofExcept (x : Except Error α) : Action σ α := fun s => ⟨x, s, []⟩

def gets (f : σ → α) : Action σ α := fun s => ⟨.ok (f s), s, []⟩

def modify (f : σ → σ) : Action σ Unit := fun s => ⟨.ok (), f s, []⟩

/-- An action on the first part of a pair. -/
def onFst (x : Action σ α) : Action (σ × τ) α := fun (s, t) =>
  match x s with
  | ⟨result, s, events⟩ => ⟨result, (s, t), events⟩

/-- An action on the first part of a pair that reads the second. -/
def onFstWith (x : τ → Action σ α) : Action (σ × τ) α := fun (s, t) =>
  match x t s with
  | ⟨result, s, events⟩ => ⟨result, (s, t), events⟩

/-- An action on the second part of a pair. -/
def onSnd (x : Action τ α) : Action (σ × τ) α := fun (s, t) =>
  match x t with
  | ⟨result, t, events⟩ => ⟨result, (s, t), events⟩

/-- Never fails; a failure becomes the result. -/
def attempt (x : Action σ α) : Action σ (Except Error α) := fun s =>
  match x s with
  | ⟨result, s, events⟩ => ⟨.ok result, s, events⟩

/-- One element after another, up to the first failure. Results and events gather in reverse. -/
def traverseFrom (f : α → Action σ β) : List α → List β → List Event → Action σ (List β)
  | [], results, events, s => ⟨.ok results.reverse, s, events.reverse⟩
  | a :: rest, results, events, s =>
    match f a s with
    | ⟨.ok b, s, more⟩ => traverseFrom f rest (b :: results) (more.reverse ++ events) s
    | ⟨.error e, s, more⟩ => ⟨.error e, s, events.reverse ++ more⟩

def traverse (f : α → Action σ β) (items : List α) : Action σ (List β) :=
  traverseFrom f items [] []

/-- Like `traverse`, where each step may also change its element. The elements after a failure stay
as they are. -/
def traverseStatesFrom (step : Action (α × σ) β) :
    List α → List α → List β → List Event → σ → Outcome (List α × σ) (List β)
  | [], done, results, events, s => ⟨.ok results.reverse, (done.reverse, s), events.reverse⟩
  | a :: rest, done, results, events, s =>
    match step (a, s) with
    | ⟨.ok b, (a, s), more⟩ =>
      traverseStatesFrom step rest (a :: done) (b :: results) (more.reverse ++ events) s
    | ⟨.error e, (a, s), more⟩ =>
      ⟨.error e, (done.reverseAux (a :: rest), s), events.reverse ++ more⟩

def traverseStates (step : Action (α × σ) β) : Action (List α × σ) (List β) := fun (items, s) =>
  traverseStatesFrom step items [] [] [] s

/-- Steps that leave a view of their elements alone leave it alone all together. -/
theorem map_traverseStatesFrom {κ : Type} (view : α → κ) {step : Action (α × σ) β}
    (hstep : ∀ a s, view (step (a, s)).state.1 = view a) (items done : List α)
    (results : List β) (events : List Event) (s : σ) :
    (traverseStatesFrom step items done results events s).state.1.map view =
      (done.reverse ++ items).map view := by
  induction items generalizing done results events s with
  | nil => simp [traverseStatesFrom]
  | cons a rest ih =>
    have ha := hstep a s
    rw [traverseStatesFrom]
    split
    · next heq =>
      rw [heq] at ha
      rw [ih]
      simp_all
    · next heq =>
      rw [heq] at ha
      simp_all [List.reverseAux_eq]

theorem map_traverseStates {κ : Type} (view : α → κ) {step : Action (α × σ) β}
    (hstep : ∀ a s, view (step (a, s)).state.1 = view a) (items : List α) (s : σ) :
    (traverseStates step (items, s)).state.1.map view = items.map view :=
  map_traverseStatesFrom view hstep items [] [] [] s

end Action

end Classfile
