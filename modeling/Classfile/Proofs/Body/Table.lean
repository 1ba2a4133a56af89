import Classfile.Proofs.Body.Assembly
import Classfile.Proofs.Body.Soundness
import Classfile.Proofs.StackMap

/-!
# Stack maps and jumps

A jump finds the types it leaves at its label. The stack map knows offsets only: at the entry it
gives the frame of the method, and elsewhere the last of the frames recorded there. The two differ
in one case, which is when locals are allocated where the label stands, between the label and the
frame that the map gives there.
-/

namespace Classfile

/-- The second frame has the stack of the first and some more locals. -/
def Frame.Extends (a b : Frame) (types : List FieldType) : Prop :=
  b.locals.toList = a.locals.toList ++ types ∧ b.stack = a.stack

namespace Frame

variable {a b c : Frame} {types more : List FieldType}

theorem Extends.refl (a : Frame) : a.Extends a [] := ⟨(List.append_nil _).symm, rfl⟩

theorem Extends.trans (hab : a.Extends b types) (hbc : b.Extends c more) :
    a.Extends c (types ++ more) :=
  ⟨by rw [hbc.1, hab.1, List.append_assoc], hbc.2.trans hab.2⟩

theorem Agrees.extends (h : a.Agrees b) : a.Extends b [] :=
  ⟨by rw [h.1, List.append_nil], h.2.symm⟩

theorem Extends.agrees_iff (h : a.Extends b types) : a.Agrees b ↔ types = [] := by
  constructor
  · intro hagrees
    have hlocals := h.1
    rw [hagrees.1] at hlocals
    exact List.self_eq_append_right.mp hlocals
  · rintro rfl
    exact ⟨Array.toList_inj.mp (h.1.trans (List.append_nil _)).symm, h.2.symm⟩

end Frame

namespace Body

open Classfile.Action Verifier

/-- The frame that a stack map gives at an offset. -/
def tableFrame? (entry : Frame) (frames : List Frame) (offset : UInt16) : Option Frame :=
  if offset = 0 then some entry
  else (StackMap.selected frames).find? fun frame => frame.offset = offset

theorem tableFrame?_eq {entry : Frame} {frames : List Frame}
    (h : StackMap.firstDescent frames = none) (offset : UInt16) :
    tableFrame? entry frames offset = recorded? entry frames offset.toNat := by
  unfold tableFrame? recorded?
  by_cases hoffset : offset = 0
  · simp [hoffset]
  · have hne : offset.toNat ≠ 0 := fun heq => hoffset (UInt16.toNat_inj.mp heq)
    rw [if_neg hoffset, if_neg hne, StackMap.find?_selected h hoffset]
    simp only [UInt16.toNat_inj]

/-! ### Where locals are allocated -/

def Call.local? : Call → Option FieldType
  | allocLocal type => some type
  | _ => none

theorem Call.local?_of_label? {call : Call} {label : Label} (h : call.label? = some label) :
    call.local? = none := by
  cases call with
  | place => rfl
  | placeFrom => rfl
  | _ => cases h

def allocated (steps : List (Run.Step (Body × Pool) Call)) : List FieldType :=
  steps.filterMap fun step => step.call.local?

/-- A local is allocated and after that a label is placed at the given offset. -/
def Overwritten (offset : Nat) (steps : List (Run.Step (Body × Pool) Call)) : Prop :=
  ∃ first second, steps = first ++ second ∧ allocated first ≠ [] ∧
    ∃ step ∈ second, step.call.label?.isSome ∧ step.before.1.size = offset

/-- Locals are allocated between the label and the frame that the stack map gives at its offset:
at the entry before the label, elsewhere between it and another label at the same offset. -/
def Disturbed (steps : List (Run.Step (Body × Pool) Call)) (label : Label) : Prop :=
  ∃ before placement after, steps = before ++ placement :: after ∧
    placement.call.label? = some label ∧
    if placement.before.1.size = 0 then allocated before ≠ []
    else Overwritten placement.before.1.size after

section Steps

variable {made : List (Run.Step (Body × Pool) Call)} {step : Run.Step (Body × Pool) Call}

theorem allocated_append (first second : List (Run.Step (Body × Pool) Call)) :
    allocated (first ++ second) = allocated first ++ allocated second :=
  List.filterMap_append

theorem allocated_singleton : allocated [step] = step.call.local?.toList := by
  rw [allocated, List.filterMap_cons, List.filterMap_nil]
  cases step.call.local? <;> rfl

theorem not_overwritten_nil (offset : Nat) : ¬ Overwritten offset [] := by
  rintro ⟨first, second, hsplit, hallocated, -⟩
  obtain ⟨rfl, -⟩ := List.append_eq_nil_iff.mp hsplit.symm
  exact hallocated rfl

theorem Overwritten.allocated {offset : Nat} (h : Overwritten offset made) :
    allocated made ≠ [] := by
  obtain ⟨first, second, rfl, hallocated, -⟩ := h
  rw [allocated_append]
  exact fun hnil => hallocated (List.append_eq_nil_iff.mp hnil).1

theorem overwritten_append {offset : Nat} :
    Overwritten offset (made ++ [step]) ↔ Overwritten offset made ∨
      allocated made ≠ [] ∧ step.call.label?.isSome ∧ step.before.1.size = offset := by
  constructor
  · rintro ⟨first, second, hsplit, hallocated, other, hother, hlabel, hsize⟩
    obtain rfl | ⟨rest, last, rfl⟩ := List.eq_nil_or_concat second
    · cases hother
    · rw [List.concat_eq_append, ← List.append_assoc] at hsplit
      obtain ⟨rfl, hlast⟩ := List.append_inj' hsplit rfl
      cases hlast
      rw [List.concat_eq_append, List.mem_append, List.mem_singleton] at hother
      obtain hother | rfl := hother
      · exact .inl ⟨first, rest, rfl, hallocated, other, hother, hlabel, hsize⟩
      · have hmade : Body.allocated (first ++ rest) ≠ [] := by
          rw [allocated_append]
          exact fun hnil => hallocated (List.append_eq_nil_iff.mp hnil).1
        exact .inr ⟨hmade, hlabel, hsize⟩
  · rintro (⟨first, second, rfl, hallocated, other, hother, hlabel, hsize⟩ |
      ⟨hallocated, hlabel, hsize⟩)
    · exact ⟨first, second ++ [step], by rw [List.append_assoc], hallocated, other,
        List.mem_append_left _ hother, hlabel, hsize⟩
    · exact ⟨made, [step], rfl, hallocated, step, List.mem_singleton_self _, hlabel, hsize⟩

end Steps

/-! ### Single calls -/

section Advance

variable {body next : Body} {pool : Pool} {call : Call}

theorem label?_of_places {label : Label}
    (h : call = .place label ∨ ∃ parent, call = .placeFrom label parent) :
    call.label? = some label ∧ call.local? = none ∧ call.operation? = none := by
  obtain rfl | ⟨parent, rfl⟩ := h
  · exact ⟨rfl, rfl, rfl⟩
  · exact ⟨rfl, rfl, rfl⟩

theorem Advance.size_eq (h : body.Advance pool call next) :
    next.size = body.size + call.operation?.elim 0 Operation.width := by
  cases h with
  | push => rw [grown_size, entered_size]; rfl
  | @branch b frame =>
    change ((body.expecting b.target? frame).entered.grown (.branch b) frame).size = _
    rw [grown_size, entered_size, expecting_size]
    rfl
  | mark hcall => rw [(label?_of_places hcall).2.2]; rfl
  | _ => rfl

/-- As long as nothing is pushed, the types change by allocated locals only. -/
theorem Advance.extends (h : body.Advance pool call next) (hreach : body.reachable = true)
    (hsize : next.size = body.size) :
    next.reachable = true ∧ body.current.Extends next.current call.local?.toList := by
  have hwidth : call.operation? = none := by
    cases hoperation : call.operation? with
    | none => rfl
    | some operation =>
      have hpos := operation.width_pos
      rw [h.size_eq, hoperation, Option.elim_some] at hsize
      omega
  cases h with
  | push => cases hwidth
  | branch => cases hwidth
  | mark hcall horigin hfresh hfall =>
    rw [(label?_of_places hcall).2.1]
    exact ⟨rfl, ((hfall hreach).trans (Frame.agrees_placedAt ..)).extends⟩
  | allocLocal => exact ⟨hreach, Array.toList_push, rfl⟩
  | freshLabel => exact ⟨hreach, .refl _⟩
  | addStackMap => exact ⟨hreach, .refl _⟩
  | addConstant => exact ⟨hreach, .refl _⟩

theorem Advance.placed {label : Label} (h : body.Advance pool call next)
    (hlabel : call.label? = some label) :
    next.labels[label]? = some next.current ∧ next.current.offset.toNat = body.size ∧
      next.size = body.size ∧ next.reachable = true := by
  cases h with
  | mark hcall horigin hfresh hfall hpending hroom =>
    rw [(label?_of_places hcall).1] at hlabel
    cases hlabel
    refine ⟨?_, toNat_ofNat_size hroom, rfl, rfl⟩
    rw [marked_labels, if_pos rfl]
    rfl
  | _ => cases hlabel

theorem recorded?_entered {entry : Frame} {offset : Nat}
    (hroom : body.reachable = false → body.size < 0x10000)
    (hreach : body.size = offset → body.reachable = true) :
    recorded? entry body.entered.frames.toList offset =
      recorded? entry body.frames.toList offset := by
  unfold entered
  split
  · rfl
  · next hdead =>
    have hdead : body.reachable = false := Bool.eq_false_iff.mpr hdead
    have hne : body.size ≠ offset := fun heq => by simp [hreach heq] at hdead
    rw [Array.toList_push, recorded?_append_of_ne]
    rwa [Frame.placedAt, toNat_ofNat_size (hroom hdead)]

/-- A label records its frame. Apart from that, nothing is recorded where code can be reached. -/
theorem Advance.recorded?_eq {entry : Frame} {offset : Nat} (h : body.Advance pool call next)
    (hoffset : offset ≠ 0)
    (hreach : call.label? = none → body.size = offset → body.reachable = true) :
    recorded? entry next.frames.toList offset =
      if call.label?.isSome ∧ body.size = offset then some next.current
      else recorded? entry body.frames.toList offset := by
  cases h with
  | push heffect hroom => exact recorded?_entered hroom (hreach rfl)
  | @branch b frame heffect hadmits hroom =>
    rw [← body.expecting_frames b.target? frame]
    exact recorded?_entered (by simpa using hroom) (by simpa using hreach rfl)
  | mark hcall horigin hfresh hfall hpending hroom =>
    rw [(label?_of_places hcall).1]
    change recorded? entry (body.frames.push _).toList offset = _
    rw [Array.toList_push, recorded?_append hoffset, Frame.placedAt, toNat_ofNat_size hroom]
    simp [marked]
  | _ => rfl

theorem Advance.labels {label : Label} {frame : Frame} (h : body.Advance pool call next)
    (hlabel : body.labels[label]? = some frame) : next.labels[label]? = some frame := by
  cases h with
  | push => simpa [grown, raised] using hlabel
  | branch => simpa [grown, raised] using hlabel
  | mark hcall horigin hfresh =>
    rw [marked_labels, if_neg, hlabel]
    rintro rfl
    rw [hfresh] at hlabel
    cases hlabel
  | _ => exact hlabel

theorem Advance.isSome_labels {label : Label} (h : body.Advance pool call next)
    (hlabel : next.labels[label]?.isSome) :
    body.labels[label]?.isSome ∨ call.label? = some label := by
  cases h with
  | push => exact .inl (by simpa [grown, raised] using hlabel)
  | branch => exact .inl (by simpa [grown, raised] using hlabel)
  | mark hcall =>
    rw [marked_labels] at hlabel
    split at hlabel
    · next heq => exact .inr (heq ▸ (label?_of_places hcall).1)
    · exact .inl hlabel
  | _ => exact .inl hlabel

theorem Knows.advance {label : Label} {left : Frame} (h : body.Knows label left)
    (hadvance : body.Advance pool call next) : next.Knows label left := by
  cases hadvance with
  | push => simpa [Knows, grown, raised] using h
  | @branch b frame =>
    have hexpecting := h.expecting b.target? frame
    simpa [Knows, grown, raised] using hexpecting
  | mark hcall horigin hfresh hfall hpending =>
    exact h.marked hfresh fun expected hexpected =>
      (Frame.agrees_placedAt ..).symm.trans (hpending expected hexpected)
  | _ => exact h

theorem Advance.knows {b : Branch} {label : Label} {left : Frame}
    (h : body.Advance pool (.branch b) next)
    (htarget : b.target? = some label) (hleft : b.effect body.current = .ok left) :
    next.Knows label left := by
  cases h with
  | branch heffect hadmits =>
    rw [hleft] at heffect
    cases heffect
    have hknows := knows_expecting (hadmits label htarget)
    rw [← htarget] at hknows
    simpa [Knows, grown, raised] using hknows
  | mark hcall => simp at hcall

theorem Advance.jump_cases (h : body.Advance pool call next) {jump : Placed}
    (hjump : jump ∈ next.jumps) :
    jump ∈ body.jumps ∨ ∃ b label, call = .branch b ∧ jump = ⟨body.size, .branch b⟩ ∧
      b.target? = some label ∧ next.Knows label next.current := by
  have hadvance := h
  cases h with
  | push =>
    refine .inl ?_
    simpa [jumps, grown, raised, Operation.target?] using hjump
  | @branch b frame heffect =>
    have hcode : jump ∈ body.code.toList ++ [⟨body.size, .branch b⟩] ∧
        jump.operation.target?.isSome := by
      simpa [jumps, grown, raised, or_and_right] using hjump
    obtain ⟨hmem, htarget⟩ := hcode
    rw [List.mem_append, List.mem_singleton] at hmem
    obtain hmem | rfl := hmem
    · exact .inl (List.mem_filter.mpr ⟨hmem, htarget⟩)
    · obtain ⟨label, hlabel⟩ := Option.isSome_iff_exists.mp htarget
      exact .inr ⟨b, label, rfl, rfl, hlabel, hadvance.knows hlabel heffect⟩
  | _ => exact .inl hjump

end Advance

/-! ### Runs of accepted calls -/

section Runs

variable {s : Body × Pool} {calls : List Call}

/-- Something has been pushed since the start, or the types have changed by the allocated locals
only. -/
def Steady (start : Body) (made : List (Run.Step (Body × Pool) Call)) (body : Body) : Prop :=
  start.size ≤ body.size ∧ (body.size = start.size →
    body.reachable = true ∧ start.current.Extends body.current (allocated made))

theorem Steady.step {start : Body} {made : List (Run.Step (Body × Pool) Call)}
    {step : Run.Step (Body × Pool) Call} (h : Steady start made step.before.1)
    (haccepted : step.Accepted Call.run) :
    Steady start (made ++ [step]) (step.after Call.run).1 := by
  obtain ⟨hle, hstill⟩ := h
  have hadvance := advance_of_accepted haccepted
  have hsize := hadvance.size_eq
  refine ⟨by omega, fun heq => ?_⟩
  have hbefore : step.before.1.size = start.size := by omega
  obtain ⟨hreach, hextends⟩ := hstill hbefore
  obtain ⟨hreach', hextends'⟩ := hadvance.extends hreach (heq.trans hbefore.symm)
  rw [allocated_append, allocated_singleton]
  exact ⟨hreach', hextends.trans hextends'⟩

theorem steady_self {start : Body} (hreach : start.reachable = true) : Steady start [] start :=
  ⟨Nat.le_refl _, fun _ => ⟨hreach, .refl _⟩⟩

theorem steady_final (hreach : s.1.reachable = true)
    (haccepted : ∀ step ∈ Run.steps Call.run calls s, step.Accepted Call.run) :
    Steady s.1 (Run.steps Call.run calls s) (Run.final Call.run calls s).1 :=
  Run.invariant Call.run (P := fun made now => Steady s.1 made now.1)
    (fun _ _ hmade hstep => hmade.step hstep) (steady_self hreach) haccepted

/-- The frame recorded at the offset of a label is overwritten with other types only if a local is
allocated and another label placed at the offset. -/
theorem recorded?_final {entry : Frame} (hreach : s.1.reachable = true) (hsize : s.1.size ≠ 0)
    (hrecorded : recorded? entry s.1.frames.toList s.1.size = some s.1.current)
    (haccepted : ∀ step ∈ Run.steps Call.run calls s, step.Accepted Call.run) :
    ∃ given, recorded? entry (Run.final Call.run calls s).1.frames.toList s.1.size = some given ∧
      (s.1.current.Agrees given ↔ ¬ Overwritten s.1.size (Run.steps Call.run calls s)) := by
  refine (Run.invariant Call.run (Q := fun step => step.Accepted Call.run)
    (P := fun made now => Steady s.1 made now.1 ∧
      ∃ given, recorded? entry now.1.frames.toList s.1.size = some given ∧
        (s.1.current.Agrees given ↔ ¬ Overwritten s.1.size made))
    (fun made step hmade hstep => ?_) ⟨steady_self hreach, s.1.current, hrecorded, ?_⟩ haccepted).2
  · obtain ⟨hsteady, given, hgiven, hagrees⟩ := hmade
    refine ⟨hsteady.step hstep, ?_⟩
    rw [(advance_of_accepted hstep).recorded?_eq hsize fun _ heq => (hsteady.2 heq).1,
      overwritten_append]
    split
    · next hplaced =>
      -- The new frame is what became of the label's frame since.
      obtain ⟨label, hlabel⟩ := Option.isSome_iff_exists.mp hplaced.1
      obtain ⟨-, -, hstays, -⟩ := (advance_of_accepted hstep).placed hlabel
      obtain ⟨-, hextends⟩ := (hsteady.step hstep).2 (hstays.trans hplaced.2)
      rw [allocated_append, allocated_singleton, Call.local?_of_label? hlabel, Option.toList_none,
        List.append_nil] at hextends
      refine ⟨_, rfl, hextends.agrees_iff.trans ?_⟩
      constructor
      · rintro hnil (hold | ⟨hallocated, -⟩)
        · exact hold.allocated hnil
        · exact hallocated hnil
      · intro hnot
        exact Decidable.not_not.mp fun hallocated => hnot (.inr ⟨hallocated, hplaced⟩)
    · next hplaced =>
      refine ⟨given, hgiven, hagrees.trans (not_congr (or_iff_left ?_).symm)⟩
      exact fun h => hplaced h.2
  · exact iff_of_true (Frame.Agrees.refl _) (not_overwritten_nil _)

theorem labels_final {label : Label} {frame : Frame} (h : s.1.labels[label]? = some frame)
    (haccepted : ∀ step ∈ Run.steps Call.run calls s, step.Accepted Call.run) :
    (Run.final Call.run calls s).1.labels[label]? = some frame :=
  Run.state_invariant Call.run (P := fun now => now.1.labels[label]? = some frame)
    (fun _ hbefore hstep => (advance_of_accepted hstep).labels hbefore) h haccepted

theorem exists_placement (hlabels : ∀ label : Label, s.1.labels[label]? = none)
    (haccepted : ∀ step ∈ Run.steps Call.run calls s, step.Accepted Call.run) {label : Label}
    (h : (Run.final Call.run calls s).1.labels[label]?.isSome) :
    ∃ step ∈ Run.steps Call.run calls s, step.call.label? = some label := by
  refine Run.invariant Call.run (Q := fun step => step.Accepted Call.run)
    (P := fun made now => now.1.labels[label]?.isSome →
      ∃ step ∈ made, step.call.label? = some label)
    (fun made step hmade hstep hsome => ?_) (by simp [hlabels]) haccepted h
  obtain hold | hnew := (advance_of_accepted hstep).isSome_labels hsome
  · obtain ⟨old, hmem, hlabel⟩ := hmade hold
    exact ⟨old, List.mem_append_left _ hmem, hlabel⟩
  · exact ⟨step, List.mem_append_right _ (List.mem_singleton_self _), hnew⟩

/-- Every jump was pushed by a step, and its label knows the types with which that step left. -/
theorem knows_final (hcode : s.1.code = #[])
    (haccepted : ∀ step ∈ Run.steps Call.run calls s, step.Accepted Call.run) {jump : Placed}
    (hjump : jump ∈ (Run.final Call.run calls s).1.jumps) :
    ∃ step ∈ Run.steps Call.run calls s, ∃ b label, step.call = .branch b ∧
      jump = ⟨step.before.1.size, .branch b⟩ ∧ b.target? = some label ∧
      (Run.final Call.run calls s).1.Knows label (step.after Call.run).1.current := by
  refine Run.invariant Call.run (Q := fun step => step.Accepted Call.run)
    (P := fun made now => ∀ jump ∈ now.1.jumps, ∃ step ∈ made, ∃ b label, step.call = .branch b ∧
      jump = ⟨step.before.1.size, .branch b⟩ ∧ b.target? = some label ∧
      now.1.Knows label (step.after Call.run).1.current)
    (fun made step hmade hstep jump hjump => ?_) (by simp [jumps, hcode]) haccepted jump hjump
  have hadvance := advance_of_accepted hstep
  obtain hold | ⟨b, label, hcall, rfl, htarget, hknows⟩ := hadvance.jump_cases hjump
  · obtain ⟨old, hmem, b, label, hcall, hplaced, htarget, hknows⟩ := hmade jump hold
    exact ⟨old, List.mem_append_left _ hmem, b, label, hcall, hplaced, htarget,
      hknows.advance hadvance⟩
  · exact ⟨step, List.mem_append_right _ (List.mem_singleton_self _), b, label, hcall, rfl, htarget,
      hknows⟩

theorem label_final (hsize : s.1.size = 0) (hreach : s.1.reachable = true)
    (haccepted : ∀ step ∈ Run.steps Call.run calls s, step.Accepted Call.run)
    {before after : List (Run.Step (Body × Pool) Call)} {placement : Run.Step (Body × Pool) Call}
    {label : Label} (hsplit : Run.steps Call.run calls s = before ++ placement :: after)
    (hlabel : placement.call.label? = some label) :
    ∃ frame given, (Run.final Call.run calls s).1.labels[label]? = some frame ∧
      recorded? s.1.current (Run.final Call.run calls s).1.frames.toList frame.offset.toNat =
        some given ∧
      (frame.Agrees given ↔ ¬ if placement.before.1.size = 0 then allocated before ≠ []
        else Overwritten placement.before.1.size after) := by
  obtain ⟨first, second, rfl, hbefore, rfl, hfinal⟩ := Run.exists_of_steps_eq Call.run hsplit
  have hplacement : placement.Accepted Call.run := haccepted placement (by simp [hsplit])
  have hfirst : ∀ step ∈ Run.steps Call.run first s, step.Accepted Call.run :=
    fun step hmem => haccepted step (by simp [hsplit, hmem])
  have hsecond : ∀ step ∈ Run.steps Call.run second (placement.after Call.run),
      step.Accepted Call.run := fun step hmem => haccepted step (by simp [hsplit, hmem])
  have hadvance := advance_of_accepted hplacement
  obtain ⟨hframe, hoffset, hstays, hlive⟩ := hadvance.placed hlabel
  have hlabels := labels_final hframe hsecond
  rw [hfinal]
  by_cases hzero : placement.before.1.size = 0
  · -- At the entry, all that was done before the label is to allocate locals.
    have hsteady := (steady_final hreach hfirst).2
    rw [← hbefore] at hsteady
    obtain ⟨hlive', hextends⟩ := hsteady (hzero.trans hsize.symm)
    have hplaced := (hadvance.extends hlive' hstays).2
    rw [Call.local?_of_label? hlabel] at hplaced
    have hall := hextends.trans hplaced
    rw [Option.toList_none, List.append_nil] at hall
    refine ⟨_, s.1.current, hlabels, by rw [hoffset, hzero, recorded?_zero], ?_⟩
    rw [if_pos hzero, Decidable.not_not, ← hall.agrees_iff]
    exact ⟨Frame.Agrees.symm, Frame.Agrees.symm⟩
  · have hrecorded : recorded? s.1.current (placement.after Call.run).1.frames.toList
        (placement.after Call.run).1.size = some (placement.after Call.run).1.current := by
      rw [hstays, hadvance.recorded?_eq hzero (by simp [hlabel]), if_pos (by simp [hlabel])]
    obtain ⟨given, hgiven, hagrees⟩ :=
      recorded?_final hlive (by rwa [hstays]) hrecorded hsecond
    rw [hstays] at hgiven hagrees
    refine ⟨_, given, hlabels, by rw [hoffset, hgiven], ?_⟩
    rw [if_neg hzero]
    exact hagrees

/-- The frame of a label is recorded last at its offset, unless it is disturbed. -/
theorem agrees_recorded?_iff (hsize : s.1.size = 0) (hreach : s.1.reachable = true)
    (hlabels : ∀ label : Label, s.1.labels[label]? = none)
    (haccepted : ∀ step ∈ Run.steps Call.run calls s, step.Accepted Call.run) {label : Label}
    {frame : Frame} (hframe : (Run.final Call.run calls s).1.labels[label]? = some frame) :
    ∃ given, recorded? s.1.current (Run.final Call.run calls s).1.frames.toList
        frame.offset.toNat = some given ∧
      (frame.Agrees given ↔ ¬ Disturbed (Run.steps Call.run calls s) label) := by
  obtain ⟨placement, hplacement, hlabel⟩ :=
    exists_placement hlabels haccepted (Option.isSome_of_eq_some hframe)
  obtain ⟨before, after, hsplit⟩ := List.append_of_mem hplacement
  obtain ⟨frame', given, hframe', hgiven, hagrees⟩ :=
    label_final hsize hreach haccepted hsplit hlabel
  rw [hframe] at hframe'
  cases hframe'
  refine ⟨given, hgiven, ?_, fun hnot => hagrees.mpr fun hdisturbed =>
    hnot ⟨before, placement, after, hsplit, hlabel, hdisturbed⟩⟩
  -- Whichever placement is said to be disturbed, it led to the same frames.
  rintro h ⟨before', placement', after', hsplit', hlabel', hdisturbed⟩
  obtain ⟨frame', given', hframe', hgiven', hagrees'⟩ :=
    label_final hsize hreach haccepted hsplit' hlabel'
  rw [hframe] at hframe'
  cases hframe'
  rw [hgiven] at hgiven'
  cases hgiven'
  exact hagrees'.mp h hdisturbed

end Runs

/-! ### Stack maps of lowered bodies -/

theorem firstDescent_of_gives {body next : Body} {pool pool' : Pool} {layout : Layout.Code}
    (h : Gives lower (body, pool) layout (next, pool')) (htable : body.table.isSome) :
    StackMap.firstDescent body.frames.toList = none := by
  obtain ⟨_, attributes, -, -, hattributes, -⟩ := gives_lower_iff.mp h
  obtain ⟨old, hold⟩ := Option.isSome_iff_exists.mp htable
  have hsettled : body.settle.table = some body.frames := by rw [settle, hold]; rfl
  rw [lowerAttributes, hsettled] at hattributes
  obtain ⟨_, hmap, -⟩ := gives_bind_pure.mp hattributes
  obtain ⟨_, _, hcompress, -⟩ := gives_bind.mp hmap
  cases hdescent : StackMap.firstDescent body.frames.toList with
  | none => rfl
  | some pair =>
    rw [StackMap.compress, hdescent] at hcompress
    cases hcompress.1

/-- **Stack maps and jumps.** Let all calls on a fresh body be accepted and the body be lowered with
a stack map. Then the map gives a frame at the target of every jump, and the types that the jump
leaves are those of the frame exactly if no locals were allocated between its label and the
frame. -/
theorem agrees_tableFrame_iff {type : MethodType} {flags : Flags .method} {owner : String}
    {body : Body} (hstart : start type flags owner = .ok body) (pool : Pool) (calls : List Call)
    (haccepted : ∀ step ∈ Run.steps Call.run calls (body, pool), step.Accepted Call.run)
    {layout : Layout.Code}
    (hlower : (lower (Run.final Call.run calls (body, pool))).result = .ok layout)
    (htable : (Run.final Call.run calls (body, pool)).1.table.isSome) :
    let steps := Run.steps Call.run calls (body, pool)
    let built := (Run.final Call.run calls (body, pool)).1
    ∀ jump ∈ built.jumps, ∃ step ∈ steps, ∃ b label target given,
      step.call = .branch b ∧ jump = ⟨step.before.1.size, .branch b⟩ ∧ b.target? = some label ∧
      built.labelOffset? label = some target ∧
      tableFrame? (.entry type flags owner) built.frames.toList target = some given ∧
      ((step.after Call.run).1.current.Agrees given ↔ ¬ Disturbed steps label) := by
  intro steps built jump hjump
  obtain ⟨hentry, hreach, hcode, hlabels⟩ := start_eq_ok hstart
  have hsize : body.size = 0 := by rw [size, hcode]; rfl
  obtain ⟨_, _, hbytes, -⟩ := gives_lower_iff.mp (gives_of_result hlower)
  have hdescent := firstDescent_of_gives (gives_of_result hlower) htable
  obtain ⟨step, hmem, b, label, hcall, rfl, htarget, hknows⟩ := knows_final hcode haccepted hjump
  obtain ⟨target, hoffset⟩ := exists_target_of_assemble hbytes hjump htarget
  obtain ⟨frame, hframe, rfl⟩ := Option.map_eq_some_iff.mp hoffset
  have hleft := hknows.1 frame hframe
  obtain ⟨given, hgiven, hagrees⟩ :=
    agrees_recorded?_iff hsize hreach hlabels haccepted hframe
  refine ⟨step, hmem, b, label, frame.offset, given, hcall, rfl, htarget, hoffset, ?_, ?_⟩
  · rw [← hentry, tableFrame?_eq hdescent, hgiven]
  · rw [← hagrees]
    exact ⟨hleft.symm.trans, hleft.trans⟩

/-- Labels at the entry and two at one offset, locals allocated away from them, and jumps in both
directions. -/
def countdownCalls : List Call :=
  [.addStackMap, .place ⟨0⟩, .push (.load .int 0), .branch (.ifZero .eq ⟨1⟩),
    .push (.increment 0 (-1)), .push (.load .int 0), .branch (.ifZero .ne ⟨0⟩), .place ⟨1⟩,
    .place ⟨2⟩, .allocLocal .int, .push (.smallInt ⟨5, by decide⟩), .push (.store .int 2),
    .branch (.leave none)]

theorem agrees_tableFrame_iff_countdown : ∃ body layout,
    start ⟨[.int, .int], none⟩ (.truncate .method 0x0008) "Hi" = .ok body ∧
    (∀ step ∈ Run.steps Call.run countdownCalls (body, .empty), step.Accepted Call.run) ∧
    (lower (Run.final Call.run countdownCalls (body, .empty))).result = .ok layout ∧
    (Run.final Call.run countdownCalls (body, .empty)).1.table.isSome ∧
    ⟨8, .branch (.ifZero .ne ⟨0⟩)⟩ ∈ (Run.final Call.run countdownCalls (body, .empty)).1.jumps ∧
    ∃ step ∈ Run.steps Call.run countdownCalls (body, .empty), ∃ given,
      step.call = .branch (.ifZero .ne ⟨0⟩) ∧
      tableFrame? (.entry ⟨[.int, .int], none⟩ (.truncate .method 0x0008) "Hi")
        (Run.final Call.run countdownCalls (body, .empty)).1.frames.toList 0 = some given ∧
      ((step.after Call.run).1.current.Agrees given ↔
        ¬ Disturbed (Run.steps Call.run countdownCalls (body, .empty)) ⟨0⟩) := by
  obtain ⟨body, layout, hstart, haccepted, hlower, htable, hjump, htarget⟩ : ∃ body layout,
      start ⟨[.int, .int], none⟩ (.truncate .method 0x0008) "Hi" = .ok body ∧
      (∀ step ∈ Run.steps Call.run countdownCalls (body, .empty), step.Accepted Call.run) ∧
      (lower (Run.final Call.run countdownCalls (body, .empty))).result = .ok layout ∧
      (Run.final Call.run countdownCalls (body, .empty)).1.table.isSome ∧
      ⟨8, .branch (.ifZero .ne ⟨0⟩)⟩ ∈ (Run.final Call.run countdownCalls (body, .empty)).1.jumps ∧
      (Run.final Call.run countdownCalls (body, .empty)).1.labelOffset? ⟨0⟩ = some 0 :=
    ⟨_, _, rfl, by decide, rfl, rfl, by decide, rfl⟩
  refine ⟨body, layout, hstart, haccepted, hlower, htable, hjump, ?_⟩
  obtain ⟨step, hmem, b, label, target, given, hcall, heq, hlabel, hoffset, hgiven, hagrees⟩ :=
    agrees_tableFrame_iff hstart .empty countdownCalls haccepted hlower htable _ hjump
  obtain ⟨-, hoperation⟩ := Placed.mk.inj heq
  cases hoperation
  cases hlabel
  rw [htarget] at hoffset
  cases hoffset
  exact ⟨step, hmem, given, hcall, hgiven, hagrees⟩

/-- A local is allocated between two labels at one offset. -/
def lateLocalCalls : List Call :=
  [.addStackMap, .push (.smallInt ⟨1, by decide⟩), .branch (.ifZero .eq ⟨0⟩),
    .push (.smallInt ⟨1, by decide⟩), .push .pop, .place ⟨0⟩, .allocLocal .int, .place ⟨1⟩,
    .branch (.leave none)]

/-- The first of the labels is reached by a jump without the local that the map gives there. -/
theorem not_agrees_tableFrame_lateLocal : ∃ body layout step given,
    start ⟨[], none⟩ (.truncate .method 0x0008) "Hi" = .ok body ∧
    (∀ step ∈ Run.steps Call.run lateLocalCalls (body, .empty), step.Accepted Call.run) ∧
    (lower (Run.final Call.run lateLocalCalls (body, .empty))).result = .ok layout ∧
    (Run.final Call.run lateLocalCalls (body, .empty)).1.table.isSome ∧
    (Run.steps Call.run lateLocalCalls (body, .empty))[2]? = some step ∧
    step.call = .branch (.ifZero .eq ⟨0⟩) ∧
    (Run.final Call.run lateLocalCalls (body, .empty)).1.labelOffset? ⟨0⟩ = some 6 ∧
    tableFrame? (.entry ⟨[], none⟩ (.truncate .method 0x0008) "Hi")
      (Run.final Call.run lateLocalCalls (body, .empty)).1.frames.toList 6 = some given ∧
    ¬ (step.after Call.run).1.current.Agrees given :=
  ⟨_, _, _, _, rfl, by decide, rfl, rfl, rfl, rfl, rfl, rfl, by decide⟩

end Body

end Classfile
