import Classfile.Proofs.Pool.WellFormed

/-!
# Indices and requests

An index says what was asked for when it was returned, and keeps saying so while the pool grows.
Requests get the same index exactly if they ask for the same, and a request that succeeded once
succeeds again with the same index, even if the pool has no room left.
-/

namespace Classfile

open Classfile.Action

def memberAt? (constants : List Constant) (index : Index .nameAndType) :
    Option (String × String) :=
  match constantAt? constants index with
  | some (.nameAndType name descriptor) => do
    return (← textAt? constants name, ← textAt? constants descriptor)
  | _ => none

namespace Pool

variable {kind : IndexKind}

/-- The constant that is asked for. Of an attribute the pool keeps the name. -/
def Addition.plain : Addition → Addition
  | attributeOf body => .utf8 body.kind.name
  | addition => addition

/-- What the constant was made from, found by following the indices that it holds. -/
def rebuild? (constants : List Constant) : Constant → Option Addition
  | .utf8 text => some (.utf8 text)
  | .integer value => some (.integer value)
  | .type name => (textAt? constants name).map .type
  | .string text => (textAt? constants text).map .string
  | .nameAndType name descriptor => do
    return .nameAndType (← textAt? constants name) (← textAt? constants descriptor)
  | .fieldRef owner member => do
    let (name, descriptor) ← memberAt? constants member
    return .fieldRef (← classAt? constants owner) name descriptor
  | .methodRef owner member => do
    let (name, descriptor) ← memberAt? constants member
    return .methodRef (← classAt? constants owner) name descriptor

def madeFrom? (constants : List Constant) (index : Index .any) : Option Addition :=
  (constantAt? constants index).bind (rebuild? constants)

/-! ### What an index was returned for -/

/-- The index that the action returns was made from what the request asks for. -/
abbrev Serves (addition : Addition) (x : Action Pool (Index kind)) : Prop :=
  Denotes x fun constants index => madeFrom? constants index.untyped = some addition

theorem madeFrom?_of_gives_add {constant : Constant} {pool pool' : Pool}
    {index : Index constant.kind} {constants : List Constant}
    (h : Gives (add constant) pool index pool') (hwithin : pool'.Within constants) :
    madeFrom? constants index.untyped = rebuild? constants constant := by
  have hconstant : constantAt? constants index.untyped = some constant := denotes_add _ h hwithin
  rw [madeFrom?, hconstant, Option.bind_some]

theorem serves_addUtf8 (text : String) : Serves (.utf8 text) (addUtf8 text) := by
  intro pool pool' index constants h hwithin
  exact madeFrom?_of_gives_add h hwithin

theorem serves_addInteger (value : Int32) : Serves (.integer value) (addInteger value) := by
  intro pool pool' index constants h hwithin
  exact madeFrom?_of_gives_add h hwithin

theorem serves_addClass (name : String) : Serves (.type name) (addClass name) := by
  refine (denotes_addUtf8 name).bind (fun _ => growing_add _) fun text => ?_
  intro pool pool' index constants h hwithin htext
  calc madeFrom? constants index.untyped
      = rebuild? constants (.type text) := madeFrom?_of_gives_add h hwithin
    _ = some (.type name) := by simp [rebuild?, htext]

theorem serves_addString (text : String) : Serves (.string text) (addString text) := by
  refine (denotes_addUtf8 text).bind (fun _ => growing_add _) fun entry => ?_
  intro pool pool' index constants h hwithin hentry
  calc madeFrom? constants index.untyped
      = rebuild? constants (.string entry) := madeFrom?_of_gives_add h hwithin
    _ = some (.string text) := by simp [rebuild?, hentry]

/-- A name and type leads to its two texts. -/
theorem denotes_addNameAndType (name descriptor : String) :
    Denotes (addNameAndType name descriptor) fun constants index =>
      memberAt? constants index = some (name, descriptor) ∧
        madeFrom? constants index.untyped = some (.nameAndType name descriptor) := by
  refine (denotes_addUtf8 name).bind
    (fun _ => moves_bind (repeats_addUtf8 _).moves fun _ => growing_add _) fun first => ?_
  refine (denotes_addUtf8 descriptor).bind (fun _ => growing_add _) fun second => ?_
  intro pool pool' index constants h hwithin hsecond hfirst
  have hconstant : constantAt? constants index = some (.nameAndType first second) :=
    denotes_add _ h hwithin
  constructor
  · simp [memberAt?, hconstant, hfirst, hsecond]
  · calc madeFrom? constants index.untyped
        = rebuild? constants (.nameAndType first second) := madeFrom?_of_gives_add h hwithin
      _ = some (.nameAndType name descriptor) := by simp [rebuild?, hfirst, hsecond]

theorem serves_addFieldRef (owner name descriptor : String) :
    Serves (.fieldRef owner name descriptor) (addFieldRef owner name descriptor) := by
  refine (denotes_addClass owner).bind
    (fun _ => moves_bind (repeats_addNameAndType _ _).moves fun _ => growing_add _) fun type => ?_
  refine (denotes_addNameAndType name descriptor).bind (fun _ => growing_add _) fun member => ?_
  intro pool pool' index constants h hwithin hmember htype
  calc madeFrom? constants index.untyped
      = rebuild? constants (.fieldRef type member) := madeFrom?_of_gives_add h hwithin
    _ = some (.fieldRef owner name descriptor) := by simp [rebuild?, hmember.1, htype]

theorem serves_addMethodRef (owner name descriptor : String) :
    Serves (.methodRef owner name descriptor) (addMethodRef owner name descriptor) := by
  refine (denotes_addClass owner).bind
    (fun _ => moves_bind (repeats_addNameAndType _ _).moves fun _ => growing_add _) fun type => ?_
  refine (denotes_addNameAndType name descriptor).bind (fun _ => growing_add _) fun member => ?_
  intro pool pool' index constants h hwithin hmember htype
  calc madeFrom? constants index.untyped
      = rebuild? constants (.methodRef type member) := madeFrom?_of_gives_add h hwithin
    _ = some (.methodRef owner name descriptor) := by simp [rebuild?, hmember.1, htype]

theorem Serves.untyped {addition : Addition} {x : Action Pool (Index kind)}
    (h : Serves addition x) : Serves addition (do return (← x).untyped) := by
  intro pool pool' index constants hgives hwithin
  obtain ⟨index, hindex, rfl⟩ := gives_bind_pure.mp hgives
  exact h hindex hwithin

/-- Naming an attribute is adding its name, and may fail for the size of the body. -/
theorem gives_addUtf8_of_attributeOf {body : Layout.AttributeBody} {pool pool' : Pool}
    {index : Index .any} (h : Gives (Addition.attributeOf body).run pool index pool') :
    Gives (Addition.utf8 body.kind.name).run pool index pool' := by
  obtain ⟨a, hattribute, rfl⟩ := gives_bind_pure.mp h
  obtain ⟨name, mid, hname, hinfo⟩ := gives_bind.mp hattribute
  rw [gives_ofExcept_bind] at hinfo
  obtain ⟨info, -, hinfo⟩ := hinfo
  obtain ⟨rfl, rfl⟩ := gives_pure.mp hinfo
  exact gives_bind_pure.mpr ⟨name, hname, rfl⟩

theorem gives_plain {addition : Addition} {pool pool' : Pool} {index : Index .any}
    (h : Gives addition.run pool index pool') : Gives addition.plain.run pool index pool' := by
  cases addition with
  | attributeOf body => exact gives_addUtf8_of_attributeOf h
  | _ => exact h

theorem serves_run (addition : Addition) : Serves addition.plain addition.run := by
  cases addition with
  | utf8 text => exact (serves_addUtf8 text).untyped
  | integer value => exact serves_addInteger value
  | type name => exact (serves_addClass name).untyped
  | string text => exact (serves_addString text).untyped
  | nameAndType name descriptor =>
    have hserves : Serves (.nameAndType name descriptor) (addNameAndType name descriptor) :=
      fun _ _ _ _ h hwithin => (denotes_addNameAndType name descriptor h hwithin).2
    exact hserves.untyped
  | fieldRef owner name descriptor => exact (serves_addFieldRef owner name descriptor).untyped
  | methodRef owner name descriptor => exact (serves_addMethodRef owner name descriptor).untyped
  | attributeOf body =>
    intro pool pool' index constants h hwithin
    exact (serves_addUtf8 _).untyped (gives_addUtf8_of_attributeOf h) hwithin

/-! ### Runs -/

theorem growsTo_final (additions : List Addition) (start : Pool) :
    start.GrowsTo (Run.final Addition.run additions start) :=
  Run.final_of_kept Addition.run (P := start.GrowsTo)
    (fun call s hs => hs.trans ((repeats_run call).moves s)) (GrowsTo.refl start) additions

section Steps

variable {additions : List Addition} {step : Run.Step Pool Addition} {index : Index .any}

/-- A request that has succeeded finds what it added in every later pool. -/
theorem gives_later (hindex : (step.outcome Addition.run).result = .ok index)
    (more : List Addition) :
    Gives step.call.run (Run.final Addition.run more (step.after Addition.run)) index
      (Run.final Addition.run more (step.after Addition.run)) :=
  (repeats_run step.call).gives (gives_of_result hindex) (growsTo_final more _)

variable (hstep : step ∈ Run.steps Addition.run additions .empty)
include hstep

theorem wellFormed_after : (step.after Addition.run).WellFormed := by
  obtain ⟨before, after, hsteps⟩ := List.append_of_mem hstep
  obtain ⟨first, -, -, hbefore, -⟩ := Run.exists_of_steps_eq Addition.run hsteps
  exact preserves_run step.call step.before (hbefore ▸ wellFormed_run first wellFormed_empty)

theorem exists_rest_of_step :
    ∃ rest, Run.final Addition.run additions .empty =
      Run.final Addition.run rest (step.after Addition.run) := by
  obtain ⟨before, after, hsteps⟩ := List.append_of_mem hstep
  obtain ⟨-, rest, -, -, -, hfinal⟩ := Run.exists_of_steps_eq Addition.run hsteps
  exact ⟨rest, hfinal⟩

theorem madeFrom?_later (hindex : (step.outcome Addition.run).result = .ok index)
    (more : List Addition) :
    madeFrom? (Run.final Addition.run more (step.after Addition.run)).toList index =
      some step.call.plain := by
  have hlater := wellFormed_run more (wellFormed_after hstep)
  have hgrows := growsTo_final more (step.after Addition.run)
  exact serves_run step.call (gives_of_result hindex) (hgrows.within hlater.within)

end Steps

/-- In a run on a pool that is empty at first, two requests that succeed get the same index exactly
if they ask for the same. In all that follows such a request, its index leads back to what was asked
for, and the request made again gives the index again and leaves the pool as it is. -/
theorem run_interns (additions : List Addition) :
    let steps := Run.steps Addition.run additions .empty
    (∀ a ∈ steps, ∀ b ∈ steps, ∀ i j, (a.outcome Addition.run).result = .ok i →
      (b.outcome Addition.run).result = .ok j → (i = j ↔ a.call.plain = b.call.plain)) ∧
    ∀ step ∈ steps, ∀ index, (step.outcome Addition.run).result = .ok index →
      ∀ more : List Addition,
        let later := Run.final Addition.run more (step.after Addition.run)
        madeFrom? later.toList index = some step.call.plain ∧
        (step.call.run later).result = .ok index ∧ (step.call.run later).state = later := by
  refine ⟨fun a ha b hb i j hi hj => ?_, fun step hstep index hindex more => ?_⟩
  · -- Both requests are looked at in the last pool of the run, where both find what they added.
    obtain ⟨restA, hfinalA⟩ := exists_rest_of_step ha
    obtain ⟨restB, hfinalB⟩ := exists_rest_of_step hb
    constructor
    · rintro rfl
      have hmadeA := madeFrom?_later ha hi restA
      have hmadeB := madeFrom?_later hb hj restB
      rw [← hfinalA] at hmadeA
      rw [← hfinalB, hmadeA] at hmadeB
      exact Option.some.inj hmadeB
    · intro hplain
      have hgivesA := (gives_plain (gives_later hi restA)).1
      have hgivesB := (gives_plain (gives_later hj restB)).1
      rw [← hfinalA, hplain] at hgivesA
      rw [← hfinalB, hgivesA] at hgivesB
      exact Except.ok.inj hgivesB
  · exact ⟨madeFrom?_later hstep hindex more, gives_later hindex more⟩

end Pool

end Classfile
