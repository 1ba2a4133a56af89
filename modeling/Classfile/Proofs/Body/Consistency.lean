import Classfile.Proofs.Body.Assembly
import Classfile.Proofs.Errors
import Classfile.Proofs.StackMap

/-!
# Consistent bodies

At every moment of a body's life, whatever was asked of it and whether that succeeded, its frames
stand in order where operations begin or where the next one will, labels have a place or wait for
one but not both, and the bytes for the distances of jumps are there and still empty. So the offsets
of a stack map never descend.
-/

namespace Classfile.Body

open Classfile.Action

/-! ### Requests -/

/-- A body may be lowered between calls. -/
inductive Request where
  | call (call : Call)
  | lower

def Request.run : Request → Action (Body × Pool) Unit
  | call c => do
    let _ ← c.run
    return
  | lower => do
    let _ ← Body.lower
    return

/-- The label that a step has placed. -/
def placed? (step : Run.Step (Body × Pool) Request) : Option Label :=
  match step.call, (step.outcome Request.run).result with
  | .call call, .ok _ => call.label?
  | _, _ => none

theorem evolves_lower {placed : Option Label} (s : Body × Pool) :
    Evolves s.1 placed (lower s).state.1 := by
  obtain hsame | hsettled := (moves_lower s).1
  · rw [hsame]
    exact .of_resembles (.refl _)
  · rw [hsettled]
    exact .of_resembles ⟨rfl, rfl, rfl, rfl⟩

theorem evolves_step (step : Run.Step (Body × Pool) Request) :
    Evolves step.before.1 (placed? step) (step.after Request.run).1 := by
  obtain ⟨request, s⟩ := step
  cases request with
  | lower =>
    have hstate : (Request.run .lower s).state = (Body.lower s).state := state_bind_pure ..
    rw [Run.Step.after, Run.Step.outcome, hstate]
    exact evolves_lower s
  | call call =>
    have hstate : (Request.run (.call call) s).state = (call.run s).state := state_bind_pure ..
    have hresult : (Request.run (.call call) s).result = (call.run s).result.map fun _ => () :=
      result_bind_pure ..
    rw [Run.Step.after, placed?, Run.Step.outcome, hstate, hresult]
    obtain ⟨reply, h⟩ | ⟨e, h⟩ := gives_or_fails call.run s
    · rw [h.1]
      exact (advance_of_gives h).evolves
    · rw [h.1]
      exact evolves_of_fails h

/-! ### What requests keep -/

/-- The bytes of an operation begin at the offset. -/
def Begins (body : Body) (offset : Nat) : Prop :=
  ∃ placed ∈ body.code.toList, placed.offset = offset ∧
    placed.operation.encode 0 <+: body.bytecode.drop offset

/-- What every request keeps. -/
structure Coherent (entry : Frame) (body : Body) : Prop where
  laid : body.WellLaid
  first : body.frames[0]? = some entry
  ordered : body.frames.toList.Pairwise fun a b => a.offset ≤ b.offset
  starts : ∀ frame ∈ body.frames.toList, frame.offset.toNat = body.size ∨
    ∃ placed ∈ body.code.toList, placed.offset = frame.offset.toNat
  recorded : ∀ (label : Label) frame, body.labels[label]? = some frame →
    frame ∈ body.frames.toList
  apart : ∀ label : Label, body.labels[label]? = none ∨ body.pending[label]? = none
  known : ∀ placed ∈ body.code.toList, ∀ label, placed.operation.target? = some label →
    body.labels[label]?.isSome ∨ body.pending[label]?.isSome

/-! ### Labels and bytes -/

theorem expecting_known {body : Body} (label : Label) (frame : Frame) :
    (body.expecting (some label) frame).labels[label]?.isSome ∨
      (body.expecting (some label) frame).pending[label]?.isSome := by
  rw [expecting_labels]
  cases hlabel : body.labels[label]? with
  | some placed => exact .inl rfl
  | none =>
    refine .inr ?_
    cases hpending : body.pending[label]? with
    | none => rw [expecting_pending_self hlabel hpending, Option.isSome_some]
    | some expected => rw [expecting_pending_of_some hpending, Option.isSome_some]

theorem WellLaid.isPrefix_encode {body : Body} (h : body.WellLaid) {placed : Placed}
    (hplaced : placed ∈ body.code.toList) :
    placed.operation.encode 0 <+: body.bytecode.drop placed.offset := by
  obtain ⟨before, after, hcode⟩ := List.append_of_mem hplaced
  rw [WellLaid, hcode, contiguous_append] at h
  have hoffset : placed.offset =
      (before.flatMap fun placed => placed.operation.encode 0).length := by
    rw [length_flatMap_encode, h.2.1, Nat.zero_add]
  rw [bytecode, hcode, List.flatMap_append, List.flatMap_cons, hoffset, List.drop_left]
  exact List.prefix_append ..

/-- The bytes for the distance of a jump are empty. -/
theorem WellLaid.operand {body : Body} (h : body.WellLaid) {jump : Placed}
    (hjump : jump ∈ body.jumps) :
    body.bytecode[jump.offset + 1]? = some 0 ∧ body.bytecode[jump.offset + 2]? = some 0 := by
  obtain ⟨hmem, htarget⟩ := List.mem_filter.mp hjump
  obtain ⟨label, hlabel⟩ := Option.isSome_iff_exists.mp htarget
  obtain ⟨opcode, hencode⟩ := exists_encode_eq hlabel
  obtain ⟨after, hafter⟩ := h.isPrefix_encode hmem
  rw [← List.getElem?_drop, ← List.getElem?_drop, ← hafter, hencode]
  exact ⟨rfl, rfl⟩

theorem contiguous_pairwise {start : Nat} {code : List Placed} (h : Contiguous start code) :
    code.Pairwise fun a b => a.offset + a.operation.width ≤ b.offset := by
  induction code generalizing start with
  | nil => exact .nil
  | cons placed rest ih =>
    refine .cons (fun later hlater => ?_) (ih h.2)
    have hbounds := (Contiguous.bounds h.2 hlater).1
    rw [h.1]
    exact hbounds

/-- The bytes of a jump end before the next jump begins. -/
theorem WellLaid.jumps_pairwise {body : Body} (h : body.WellLaid) :
    body.jumps.Pairwise fun a b => a.offset + 2 < b.offset := by
  rw [jumps, List.pairwise_filter]
  refine (contiguous_pairwise h).imp fun {a b} hab htarget _ => ?_
  obtain ⟨label, hlabel⟩ := Option.isSome_iff_exists.mp htarget
  rw [width_of_target hlabel] at hab
  omega

namespace Coherent

variable {entry : Frame} {body next : Body}

theorem start {type : MethodType} {flags : Flags .method} {owner : String}
    (h : start type flags owner = .ok body) : Coherent (.entry type flags owner) body := by
  obtain ⟨_, -, hbody⟩ := bind_eq_ok h
  cases hbody
  refine ⟨trivial, rfl, List.pairwise_singleton .., fun frame hframe => ?_, fun label frame h => ?_,
    fun label => .inl Std.TreeMap.getElem?_emptyc, fun placed hplaced => ?_⟩
  · obtain rfl := List.mem_singleton.mp hframe
    exact .inl rfl
  · rw [Std.TreeMap.getElem?_emptyc] at h
    cases h
  · cases hplaced

theorem congr (h : Coherent entry body) (hnext : body.Resembles next) : Coherent entry next := by
  obtain ⟨hcode, hframes, hlabels, hpending⟩ := hnext
  have hsize := size_eq_of_code hcode
  refine ⟨?_, ?_, ?_, ?_, ?_, ?_, ?_⟩
  · rw [WellLaid, hcode]
    exact h.laid
  · rw [hframes]
    exact h.first
  · rw [hframes]
    exact h.ordered
  · rw [hframes, hcode, hsize]
    exact h.starts
  · rw [hframes, hlabels]
    exact h.recorded
  · rw [hlabels, hpending]
    exact h.apart
  · rw [hcode, hlabels, hpending]
    exact h.known

theorem bounded (h : Coherent entry body) {frame : Frame} (hframe : frame ∈ body.frames.toList) :
    frame.offset.toNat ≤ body.size := by
  obtain heq | ⟨placed, hplaced, heq⟩ := h.starts frame hframe
  · omega
  · have hlt := h.laid.offset_lt hplaced
    omega

/-! ### One request -/

/-- A frame may be recorded where the next operation will begin. -/
theorem pushFrame (h : Coherent entry body) {frame : Frame}
    (hoffset : frame.offset.toNat = body.size) :
    Coherent entry { body with frames := body.frames.push frame } := by
  refine ⟨h.laid, ?_, ?_, ?_, ?_, h.apart, h.known⟩
  · have hpos : 0 < body.frames.size := (Array.getElem?_eq_some_iff.mp h.first).1
    rw [Array.getElem?_push_lt hpos, ← Array.getElem?_eq_getElem hpos]
    exact h.first
  · rw [Array.toList_push, List.pairwise_append]
    refine ⟨h.ordered, List.pairwise_singleton .., fun a ha b hb => ?_⟩
    obtain rfl := List.mem_singleton.mp hb
    have hle := h.bounded ha
    rw [UInt16.le_iff_toNat_le]
    omega
  · intro other hother
    rw [Array.toList_push, List.mem_append, List.mem_singleton] at hother
    obtain hother | rfl := hother
    · exact h.starts other hother
    · exact .inl hoffset
  · intro label other hlabel
    rw [Array.toList_push]
    exact List.mem_append_left _ (h.recorded label other hlabel)

theorem entered (h : Coherent entry body)
    (hroom : body.reachable = false → body.size < 0x10000) : Coherent entry body.entered := by
  unfold Body.entered
  split
  · exact h
  · next hdead =>
    have hoffset : (body.current.placedAt (UInt16.ofNat body.size)).offset.toNat = body.size :=
      toNat_ofNat_size (hroom (Bool.eq_false_iff.mpr hdead))
    exact (h.pushFrame hoffset).congr ⟨rfl, rfl, rfl, rfl⟩

theorem mark (h : Coherent entry body) (label : Label) {frame : Frame}
    (hoffset : frame.offset.toNat = body.size) : Coherent entry (body.marked label frame) := by
  have hpushed := h.pushFrame hoffset
  refine ⟨hpushed.laid, hpushed.first, hpushed.ordered, hpushed.starts, ?_, ?_, ?_⟩
  · intro other found hfound
    rw [marked_labels] at hfound
    split at hfound
    · cases hfound
      exact Array.mem_toList_iff.mpr Array.mem_push_self
    · exact hpushed.recorded other found hfound
  · intro other
    rw [marked_labels, marked_pending]
    split
    · exact .inr rfl
    · exact h.apart other
  · intro placed hplaced other hother
    rw [marked_labels, marked_pending]
    split
    · exact .inl rfl
    · exact h.known placed hplaced other hother

theorem expecting (h : Coherent entry body) (target : Option Label) (frame : Frame) :
    Coherent entry (body.expecting target frame) := by
  unfold Body.expecting
  split
  · exact h
  · next target =>
    split
    · next hfresh =>
      have hinsert : ∀ label, (body.pending.insert target frame)[label]? =
          if target = label then some frame else body.pending[label]? := by
        intro label
        simp only [Std.TreeMap.getElem?_insert, Std.compare_eq_iff_eq]
      refine ⟨h.laid, h.first, h.ordered, h.starts, h.recorded, fun label => ?_,
        fun placed hplaced label hlabel => ?_⟩
      · rw [hinsert]
        split
        · next heq => exact .inl (heq ▸ hfresh.1)
        · exact h.apart label
      · rw [hinsert]
        split
        · exact .inr rfl
        · exact h.known placed hplaced label hlabel
    · exact h

/-- An operation is appended. If it is a jump, its label is known. -/
theorem grow (h : Coherent entry body) {operation : Operation}
    (htarget : ∀ label, operation.target? = some label →
      body.labels[label]?.isSome ∨ body.pending[label]?.isSome) (frame : Frame) :
    Coherent entry (body.grown operation frame) := by
  have hcode : (body.grown operation frame).code.toList =
      body.code.toList ++ [⟨body.size, operation⟩] := Array.toList_push
  refine ⟨h.laid.push rfl, h.first, h.ordered, fun other hother => ?_, h.recorded, h.apart, ?_⟩
  · rw [hcode]
    obtain heq | ⟨placed, hplaced, heq⟩ := h.starts other hother
    · exact .inr ⟨_, List.mem_append_right _ (List.mem_singleton_self _), heq.symm⟩
    · exact .inr ⟨placed, List.mem_append_left _ hplaced, heq⟩
  · rw [hcode]
    intro placed hplaced label hlabel
    rw [List.mem_append, List.mem_singleton] at hplaced
    obtain hplaced | rfl := hplaced
    · exact h.known placed hplaced label hlabel
    · exact htarget label hlabel

theorem evolves (h : Coherent entry body) {placed : Option Label}
    (hnext : Evolves body placed next) : Coherent entry next := by
  cases hnext with
  | keep target frame hnext => exact (h.expecting target frame).congr hnext
  | mark hplaced hfresh hoffset hnext => exact (h.mark _ hoffset).congr hnext
  | grow operation frame hroom hnext =>
    have hready := (h.expecting operation.target? frame).entered (by simpa using hroom)
    refine (hready.grow (fun label hlabel => ?_) frame).congr hnext
    rw [entered_labels, entered_pending, hlabel]
    exact expecting_known label frame

theorem begins (h : Coherent entry body) {frame : Frame} (hframe : frame ∈ body.frames.toList) :
    body.Begins frame.offset.toNat ∨ frame.offset.toNat = body.bytecode.length := by
  obtain heq | ⟨placed, hplaced, heq⟩ := h.starts frame hframe
  · exact .inr (heq.trans h.laid.length_bytecode.symm)
  · exact .inl ⟨placed, hplaced, heq, heq ▸ h.laid.isPrefix_encode hplaced⟩

end Coherent

/-! ### Where the frames at the end come from -/

/-- The frame was recorded by a step that placed a label, and nothing has been appended since. -/
def PlacedLast (made : List (Run.Step (Body × Pool) Request)) (body : Body) (position : Nat)
    (frame : Frame) : Prop :=
  ∃ before step after, made = before ++ step :: after ∧ (placed? step).isSome ∧
    step.before.1.frames.size = position ∧
    (step.after Request.run).1.frames = step.before.1.frames.push frame ∧
    body.code = (step.after Request.run).1.code

theorem PlacedLast.append {made : List (Run.Step (Body × Pool) Request)} {body next : Body}
    {position : Nat} {frame : Frame} (h : PlacedLast made body position frame)
    (hcode : next.code = body.code) (step : Run.Step (Body × Pool) Request) :
    PlacedLast (made ++ [step]) next position frame := by
  obtain ⟨before, placement, after, rfl, hplaced, hposition, hframes, hsame⟩ := h
  exact ⟨before, placement, after ++ [step], by simp, hplaced, hposition, hframes,
    hcode.trans hsame⟩

/-- A frame at the end of the bytes is that of the entry, or was recorded there by a label. -/
def Accounted (made : List (Run.Step (Body × Pool) Request)) (body : Body) : Prop :=
  ∀ position frame, body.frames[position]? = some frame → frame.offset.toNat = body.size →
    (position = 0 ∧ body.code = #[]) ∨ PlacedLast made body position frame

theorem Accounted.step {entry : Frame} {made : List (Run.Step (Body × Pool) Request)}
    {step : Run.Step (Body × Pool) Request} (hcoherent : Coherent entry step.before.1)
    (h : Accounted made step.before.1) :
    Accounted (made ++ [step]) (step.after Request.run).1 := by
  intro position frame hframe hoffset
  -- As long as nothing is appended, what was said of a frame stays true.
  have hold (hcode : (step.after Request.run).1.code = step.before.1.code)
      (hframe : step.before.1.frames[position]? = some frame) :
      (position = 0 ∧ (step.after Request.run).1.code = #[]) ∨
        PlacedLast (made ++ [step]) (step.after Request.run).1 position frame := by
    rw [size_eq_of_code hcode] at hoffset
    obtain ⟨hposition, hempty⟩ | hplaced := h position frame hframe hoffset
    · exact .inl ⟨hposition, hcode.trans hempty⟩
    · exact .inr (hplaced.append hcode step)
  cases evolves_step step with
  | keep target expected hnext =>
    refine hold (hnext.code.trans (expecting_code ..)) ?_
    rwa [hnext.frames, expecting_frames] at hframe
  | @mark label recorded hplaced hfresh hrecorded hnext =>
    have hframes : (step.after Request.run).1.frames = step.before.1.frames.push recorded :=
      hnext.frames
    rw [hframes, Array.getElem?_push] at hframe
    split at hframe
    · next hposition =>
      cases hframe
      exact .inr ⟨made, step, [], rfl, by rw [hplaced]; rfl, hposition.symm, hframes, rfl⟩
    · exact hold hnext.code hframe
  | grow operation expected hroom hnext =>
    -- The new operation ends behind all frames.
    have hready := (hcoherent.expecting operation.target? expected).entered (by simpa using hroom)
    rw [hnext.frames] at hframe
    have hmem := Array.mem_toList_iff.mpr (Array.mem_of_getElem? hframe)
    have hle := hready.bounded hmem
    rw [size_eq_of_code hnext.code, grown_size] at hoffset
    have hpos := operation.width_pos
    omega

/-! ### Runs -/

theorem coherent_final {entry : Frame} {s : Body × Pool} (hstart : Coherent entry s.1)
    (haccounted : Accounted [] s.1) (requests : List Request) :
    Coherent entry (Run.final Request.run requests s).1 ∧
      Accounted (Run.steps Request.run requests s) (Run.final Request.run requests s).1 :=
  Run.invariant Request.run (Q := fun _ => True)
    (P := fun made now => Coherent entry now.1 ∧ Accounted made now.1)
    (fun _ step hmade _ => ⟨hmade.1.evolves (evolves_step step), hmade.2.step hmade.1⟩)
    ⟨hstart, haccounted⟩ fun _ _ => trivial

theorem accounted_start {type : MethodType} {flags : Flags .method} {owner : String} {body : Body}
    (h : start type flags owner = .ok body) : Accounted [] body := by
  obtain ⟨_, -, hbody⟩ := bind_eq_ok h
  cases hbody
  intro position frame hframe _
  have hlt := (Array.getElem?_eq_some_iff.mp hframe).1
  exact .inl ⟨Nat.lt_one_iff.mp hlt, rfl⟩

/-- Lowering fails for jumps, or for obstacles to the stack map that are not in its offsets. -/
theorem result_lower_ne_descendingOffset {body : Body}
    (h : body.frames.toList.Pairwise fun a b => a.offset ≤ b.offset) (pool : Pool)
    (previous offset : UInt16) :
    (lower (body, pool)).result ≠ .error (.descendingOffset previous offset) := by
  intro hresult
  have hfails : Fails lower (body, pool) _ (lower (body, pool)).state := ⟨hresult, rfl⟩
  obtain ⟨hassemble, -⟩ | ⟨bytes, -, -, hattributes⟩ := fails_lower_iff.mp hfails
  · obtain ⟨_, _, _, _, _, hfaulty⟩ := assemble_eq_error_iff.mp hassemble
    cases hfaulty
  · cases htable : body.table with
    | none =>
      rw [lowerAttributes, settle, htable] at hattributes
      exact fails_pure hattributes
    | some old =>
      rw [lowerAttributes, settle, htable] at hattributes
      have hdescent := StackMap.firstDescent_eq_none_of_pairwise h
      have hobstacle := StackMap.failsWith_lower hdescent (fails_bind_pure.mp hattributes)
      cases hobstacle

/-- **Consistent bodies.** Whatever is asked of a fresh body, and whether it succeeds or not, the
frames start with that of the entry and do not descend. A frame stands where an operation begins, or
at the end of the bytes if a label has recorded it there and nothing was appended since, or nothing
at all yet. Labels that have a place have a frame among these, no label both has a place and waits
for one, and the labels of jumps do one of the two. The bytes for the distances of jumps are there,
do not overlap and are empty. So a body is never refused because its offsets descend. -/
theorem consistent_final {type : MethodType} {flags : Flags .method} {owner : String} {body : Body}
    (hstart : start type flags owner = .ok body) (pool : Pool) (requests : List Request) :
    let steps := Run.steps Request.run requests (body, pool)
    let built := (Run.final Request.run requests (body, pool)).1
    built.frames[0]? = some (.entry type flags owner) ∧ (Frame.entry type flags owner).offset = 0 ∧
    built.frames.toList.Pairwise (fun a b => a.offset ≤ b.offset) ∧
    (∀ frame ∈ built.frames.toList,
      built.Begins frame.offset.toNat ∨ frame.offset.toNat = built.bytecode.length) ∧
    (∀ position frame, built.frames[position]? = some frame →
      frame.offset.toNat = built.bytecode.length →
      (position = 0 ∧ built.code = #[]) ∨ PlacedLast steps built position frame) ∧
    (∀ (label : Label) frame, built.labels[label]? = some frame → frame ∈ built.frames.toList) ∧
    (∀ label, ¬ (label ∈ built.labels ∧ label ∈ built.pending)) ∧
    (∀ jump ∈ built.jumps, ∃ label, jump.operation.target? = some label ∧
      (label ∈ built.labels ∨ label ∈ built.pending)) ∧
    built.jumps.Pairwise (fun a b => a.offset + 2 < b.offset) ∧
    (∀ jump ∈ built.jumps, built.bytecode[jump.offset + 1]? = some 0 ∧
      built.bytecode[jump.offset + 2]? = some 0) ∧
    ∀ constants previous offset,
      (lower (built, constants)).result ≠ .error (.descendingOffset previous offset) := by
  intro steps built
  obtain ⟨h, haccounted⟩ : Coherent (.entry type flags owner) built ∧ Accounted steps built :=
    coherent_final (s := (body, pool)) (.start hstart) (accounted_start hstart) requests
  refine ⟨h.first, rfl, h.ordered, fun _ => h.begins, fun position frame hframe hoffset => ?_,
    h.recorded, fun label hboth => ?_, fun jump hjump => ?_, h.laid.jumps_pairwise,
    fun _ => h.laid.operand, result_lower_ne_descendingOffset h.ordered⟩
  · exact haccounted position frame hframe (hoffset.trans h.laid.length_bytecode)
  · rw [Std.TreeMap.mem_iff_isSome_getElem?, Std.TreeMap.mem_iff_isSome_getElem?] at hboth
    obtain hnone | hnone := h.apart label
    · simp [hnone] at hboth
    · simp [hnone] at hboth
  · obtain ⟨hmem, htarget⟩ := List.mem_filter.mp hjump
    obtain ⟨label, hlabel⟩ := Option.isSome_iff_exists.mp htarget
    refine ⟨label, hlabel, ?_⟩
    rw [Std.TreeMap.mem_iff_isSome_getElem?, Std.TreeMap.mem_iff_isSome_getElem?]
    exact h.known jump hmem label hlabel

/-- Jumps to labels placed later, both at the end, with calls refused and a body lowered between. -/
def detourRequests : List Request :=
  [.call .addStackMap, .call (.push (.load .int 0)), .call (.branch (.ifZero .eq ⟨0⟩)), .lower,
    .call (.push .pop), .call (.branch (.goto ⟨1⟩)), .call (.place ⟨0⟩), .call (.place ⟨0⟩),
    .call (.push (.increment 0 1)), .call (.branch (.goto ⟨0⟩)), .call (.place ⟨1⟩), .lower]

theorem consistent_final_detour : ∃ body frame,
    start ⟨[.int], none⟩ (.truncate .method 0x0008) "Hi" = .ok body ∧
    let steps := Run.steps Request.run detourRequests (body, .empty)
    let built := (Run.final Request.run detourRequests (body, .empty)).1
    built.frames.toList.map (fun frame => frame.offset.toNat) = [0, 7, 13] ∧
    built.jumps.map Placed.offset = [1, 4, 10] ∧
    built.frames[2]? = some frame ∧ PlacedLast steps built 2 frame ∧
    (∀ jump ∈ built.jumps, built.bytecode[jump.offset + 1]? = some 0 ∧
      built.bytecode[jump.offset + 2]? = some 0) ∧
    ∀ constants previous offset,
      (lower (built, constants)).result ≠ .error (.descendingOffset previous offset) := by
  obtain ⟨body, frame, hstart, hoffsets, hjumps, hframe, hend⟩ : ∃ body frame,
      start ⟨[.int], none⟩ (.truncate .method 0x0008) "Hi" = .ok body ∧
      let built := (Run.final Request.run detourRequests (body, .empty)).1
      built.frames.toList.map (fun frame => frame.offset.toNat) = [0, 7, 13] ∧
      built.jumps.map Placed.offset = [1, 4, 10] ∧
      built.frames[2]? = some frame ∧ frame.offset.toNat = built.bytecode.length :=
    ⟨_, _, rfl, rfl, rfl, rfl, rfl⟩
  obtain ⟨-, -, -, -, haccounted, -, -, -, -, hoperands, hlower⟩ :=
    consistent_final hstart .empty detourRequests
  obtain ⟨hposition, -⟩ | hplaced := haccounted 2 frame hframe hend
  · cases hposition
  · exact ⟨body, frame, hstart, hoffsets, hjumps, hframe, hplaced, hoperands, hlower⟩

end Classfile.Body
