import Classfile.Action

/-!
# Runs

A run makes one call after another on a state, whether the calls succeed or not. Its steps keep, for
every call, the state on which the call was made. What holds at the start and is kept by every step
holds at the end; it may speak of the steps made so far.
-/

namespace Classfile.Run

variable {σ γ ρ : Type}

/-- A call and the state on which it is made. -/
structure Step (σ γ : Type) where
  call : γ
  before : σ

variable (act : γ → Action σ ρ)

def Step.outcome (step : Step σ γ) : Outcome σ ρ := act step.call step.before

def Step.after (step : Step σ γ) : σ := (step.outcome act).state

def Step.Accepted (step : Step σ γ) : Prop := ∃ reply, (step.outcome act).result = .ok reply

instance (step : Step σ γ) : Decidable (step.Accepted act) :=
  match h : (step.outcome act).result with
  | .ok reply => isTrue ⟨reply, h⟩
  | .error _ => isFalse fun ⟨_, hok⟩ => by rw [h] at hok; cases hok

def steps : List γ → σ → List (Step σ γ)
  | [], _ => []
  | call :: rest, s => ⟨call, s⟩ :: steps rest (act call s).state

def final : List γ → σ → σ
  | [], s => s
  | call :: rest, s => final rest (act call s).state

theorem call_mem {calls : List γ} {s : σ} {step : Step σ γ} (h : step ∈ steps act calls s) :
    step.call ∈ calls := by
  induction calls generalizing s with
  | nil => cases h
  | cons call rest ih =>
    rw [steps, List.mem_cons] at h
    obtain rfl | h := h
    · exact List.mem_cons_self
    · exact List.mem_cons_of_mem _ (ih h)

theorem map_call_steps (calls : List γ) (s : σ) : (steps act calls s).map Step.call = calls := by
  induction calls generalizing s with
  | nil => rfl
  | cons call rest ih => rw [steps, List.map_cons, ih]

theorem steps_append (first second : List γ) (s : σ) :
    steps act (first ++ second) s = steps act first s ++ steps act second (final act first s) := by
  induction first generalizing s with
  | nil => rfl
  | cons call rest ih => rw [List.cons_append, steps, ih, steps, final, List.cons_append]

theorem final_append (first second : List γ) (s : σ) :
    final act (first ++ second) s = final act second (final act first s) := by
  induction first generalizing s with
  | nil => rfl
  | cons call rest ih => rw [List.cons_append, final, ih, final]

/-- A run can be cut at each of its steps. -/
theorem eq_append_of_getElem? {made : List (Step σ γ)} {i : Nat} {step : Step σ γ}
    (h : made[i]? = some step) : made = made.take i ++ step :: made.drop (i + 1) := by
  obtain ⟨hi, rfl⟩ := List.getElem?_eq_some_iff.mp h
  rw [← List.drop_eq_getElem_cons hi, List.take_append_drop]

/-- A run goes on after each of its steps. -/
theorem exists_of_steps_eq {calls : List γ} {s : σ} {before after : List (Step σ γ)}
    {step : Step σ γ} (h : steps act calls s = before ++ step :: after) :
    ∃ first second, before = steps act first s ∧ step.before = final act first s ∧
      after = steps act second (step.after act) ∧
      final act calls s = final act second (step.after act) := by
  induction before generalizing calls s with
  | nil =>
    cases calls with
    | nil => cases h
    | cons call rest =>
      cases h
      exact ⟨[], rest, rfl, rfl, rfl, rfl⟩
  | cons made before ih =>
    cases calls with
    | nil => cases h
    | cons call rest =>
      rw [steps, List.cons_append, List.cons.injEq] at h
      obtain ⟨rfl, h⟩ := h
      obtain ⟨first, second, rfl, hbefore, hafter, hfinal⟩ := ih h
      exact ⟨call :: first, second, rfl, hbefore, hafter, hfinal⟩

/-- A step that changes nothing can be left out. The others are made on the same states then. -/
theorem steps_of_unchanged {calls : List γ} {s : σ} {before after : List (Step σ γ)}
    {step : Step σ γ} (h : steps act calls s = before ++ step :: after)
    (hsame : step.after act = step.before) :
    steps act ((before ++ after).map Step.call) s = before ++ after ∧
      final act ((before ++ after).map Step.call) s = final act calls s := by
  obtain ⟨first, second, rfl, hbefore, rfl, hfinal⟩ := exists_of_steps_eq act h
  rw [hsame, hbefore] at hfinal ⊢
  rw [List.map_append, map_call_steps, map_call_steps, steps_append, final_append, hfinal]
  exact ⟨rfl, rfl⟩

/-- A fact about the steps so far and the state they led to, kept by every allowed step. -/
theorem invariant {P : List (Step σ γ) → σ → Prop} {Q : Step σ γ → Prop}
    (hstep : ∀ made step, P made step.before → Q step → P (made ++ [step]) (step.after act))
    {calls : List γ} {s : σ} (hstart : P [] s) (hallowed : ∀ step ∈ steps act calls s, Q step) :
    P (steps act calls s) (final act calls s) := by
  -- The induction is on the calls still to be made; the steps made before them are arbitrary.
  suffices h : ∀ made, P made s → P (made ++ steps act calls s) (final act calls s) from h [] hstart
  clear hstart
  induction calls generalizing s with
  | nil => simp [steps, final]
  | cons call rest ih =>
    intro made hmade
    rw [steps] at hallowed ⊢
    have hnext := hstep made ⟨call, s⟩ hmade (hallowed _ List.mem_cons_self)
    have hrest := ih (fun step hmem => hallowed step (List.mem_cons_of_mem _ hmem)) _ hnext
    rwa [List.append_assoc] at hrest

theorem state_invariant {P : σ → Prop} {Q : Step σ γ → Prop}
    (hstep : ∀ step : Step σ γ, P step.before → Q step → P (step.after act))
    {calls : List γ} {s : σ} (hstart : P s) (hallowed : ∀ step ∈ steps act calls s, Q step) :
    P (final act calls s) :=
  invariant act (P := fun _ s => P s) (fun _ => hstep) hstart hallowed

/-- What every call keeps is kept by the run. -/
theorem final_of_kept {P : σ → Prop} (hkept : ∀ call s, P s → P (act call s).state) {s : σ}
    (hstart : P s) (calls : List γ) : P (final act calls s) :=
  state_invariant act (Q := fun _ => True)
    (fun step hbefore _ => hkept step.call step.before hbefore) hstart fun _ _ => trivial

end Classfile.Run
