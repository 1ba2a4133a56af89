import Classfile.Attribute
import Classfile.Proofs.Frame.Effect
import Classfile.Proofs.Run

/-!
# Calls on a body

A body is built by calls, in any order, together with the pool its instructions refer to. Here is
said once why each part of a call fails and what an accepted call does: it advances the body in the
way of its kind.
-/

namespace Classfile

def Error.isValueOverflow : Error → Bool
  | valueOverflow _ _ => true
  | _ => false

namespace Body

open Classfile.Action

inductive Call where
  | push (instruction : Instruction)
  | branch (branch : Branch)
  | place (label : Label)
  | placeFrom (label parent : Label)
  | freshLabel
  | allocLocal (type : FieldType)
  | addStackMap
  | addConstant (addition : Pool.Addition)

inductive Reply where
  | done
  | label (label : Label)
  | slot (index : UInt16)
  | constant (index : Index .any)

def Call.run : Call → Action (Body × Pool) Reply
  | push instruction => do
    onFstWith fun pool => Body.push pool instruction
    return .done
  | branch b => do
    onFst (pushBranch b)
    return .done
  | place label => do
    onFst (Body.place label)
    return .done
  | placeFrom label parent => do
    onFst (Body.placeFrom label parent)
    return .done
  | freshLabel => return .label (← onFst Body.freshLabel)
  | allocLocal type => return .slot (← onFst (Body.allocLocal type))
  | addStackMap => do
    onFst (attach .stackMapTable)
    return .done
  | addConstant addition => return .constant (← onSnd addition.run)

/-- The label that a call places. -/
def Call.label? : Call → Option Label
  | place label => some label
  | placeFrom label _ => some label
  | _ => none

/-- The operation that a call appends. -/
def Call.operation? : Call → Option Operation
  | push instruction => some (.plain instruction)
  | branch b => some (.branch b)
  | _ => none

theorem start_eq_ok {type : MethodType} {flags : Flags .method} {owner : String} {body : Body}
    (h : start type flags owner = .ok body) :
    body.current = .entry type flags owner ∧ body.reachable = true ∧ body.code = #[] ∧
      ∀ label : Label, body.labels[label]? = none := by
  obtain ⟨_, -, hbody⟩ := bind_eq_ok h
  cases hbody
  exact ⟨rfl, rfl, rfl, fun _ => Std.TreeMap.getElem?_emptyc⟩

/-! ### States after a call -/

variable (body : Body)

/-- A label is placed here with the given frame. -/
def marked (label : Label) (frame : Frame) : Body :=
  { body with
    pending := body.pending.erase label
    current := frame
    reachable := true
    frames := body.frames.push frame
    labels := body.labels.insert label frame }

/-- The next operation has a frame, if it needs one. -/
def entered : Body :=
  if body.reachable then body
  else
    { body with
      frames := body.frames.push (body.current.placedAt (UInt16.ofNat body.size))
      reachable := true }

/-- A jump to a label without a place has left its frame there. -/
def expecting (target : Option Label) (frame : Frame) : Body :=
  match target with
  | none => body
  | some label =>
    if body.labels[label]? = none ∧ body.pending[label]? = none then
      { body with pending := body.pending.insert label frame }
    else body

def raised : Body :=
  { body with
    maxStack := max body.maxStack (UInt16.ofNat body.current.stack.length)
    maxLocals := max body.maxLocals (UInt16.ofNat body.current.locals.size) }

def grown (operation : Operation) (frame : Frame) : Body :=
  raised { body with
    code := body.code.push ⟨body.size, operation⟩
    current := frame }

def withLocal (type : FieldType) : Body :=
  raised { body with current := { body.current with locals := body.current.locals.push type } }

/-- The second body has the operations, the frames and the labels of the first. -/
structure Resembles (body next : Body) : Prop where
  code : next.code = body.code
  frames : next.frames = body.frames
  labels : next.labels = body.labels
  pending : next.pending = body.pending

theorem Resembles.refl (body : Body) : body.Resembles body := ⟨rfl, rfl, rfl, rfl⟩

def Fits (frame : Frame) : Prop := frame.stack.length < 0x10000 ∧ frame.locals.size < 0x10000

/-- The frame has more values or more locals than can be counted. -/
inductive Exceeds (frame : Frame) : Error → Prop where
  | stack (h : 0x10000 ≤ frame.stack.length) :
      Exceeds frame (.valueOverflow "max_stack" frame.stack.length)
  | locals (hstack : frame.stack.length < 0x10000) (h : 0x10000 ≤ frame.locals.size) :
      Exceeds frame (.valueOverflow "max_locals" frame.locals.size)

/-- The frame with which a jump reaches a label is the one all others reach it with. -/
def Admits (frame : Frame) (label : Label) : Prop :=
  (∀ placed, body.labels[label]? = some placed → frame.Agrees placed) ∧
  (body.labels[label]? = none →
    ∀ expected, body.pending[label]? = some expected → frame.Agrees expected)

theorem marked_labels (label target : Label) (frame : Frame) :
    (body.marked label frame).labels[target]? =
      if label = target then some frame else body.labels[target]? := by
  simp only [marked, Std.TreeMap.getElem?_insert, Std.compare_eq_iff_eq]

theorem marked_pending (label target : Label) (frame : Frame) :
    (body.marked label frame).pending[target]? =
      if label = target then none else body.pending[target]? := by
  simp only [marked, Std.TreeMap.getElem?_erase, Std.compare_eq_iff_eq]

section Entered

@[simp]
theorem entered_reachable : body.entered.reachable = true := by
  unfold entered
  split <;> simp_all

@[simp]
theorem entered_code : body.entered.code = body.code := by
  unfold entered
  split <;> rfl

@[simp]
theorem entered_labels : body.entered.labels = body.labels := by
  unfold entered
  split <;> rfl

@[simp]
theorem entered_pending : body.entered.pending = body.pending := by
  unfold entered
  split <;> rfl

@[simp]
theorem entered_current : body.entered.current = body.current := by
  unfold entered
  split <;> rfl

end Entered

section Expecting

variable (target : Option Label) (frame : Frame)

/-- Nothing but the frames of labels without a place changes. -/
theorem exists_expecting_eq : ∃ pending, body.expecting target frame = { body with pending } := by
  unfold expecting
  split
  · exact ⟨body.pending, rfl⟩
  · split
    · exact ⟨_, rfl⟩
    · exact ⟨body.pending, rfl⟩

@[simp]
theorem expecting_reachable : (body.expecting target frame).reachable = body.reachable := by
  obtain ⟨pending, h⟩ := body.exists_expecting_eq target frame
  rw [h]

@[simp]
theorem expecting_code : (body.expecting target frame).code = body.code := by
  obtain ⟨pending, h⟩ := body.exists_expecting_eq target frame
  rw [h]

@[simp]
theorem expecting_labels : (body.expecting target frame).labels = body.labels := by
  obtain ⟨pending, h⟩ := body.exists_expecting_eq target frame
  rw [h]

@[simp]
theorem expecting_current : (body.expecting target frame).current = body.current := by
  obtain ⟨pending, h⟩ := body.exists_expecting_eq target frame
  rw [h]

@[simp]
theorem expecting_frames : (body.expecting target frame).frames = body.frames := by
  obtain ⟨pending, h⟩ := body.exists_expecting_eq target frame
  rw [h]

variable {body} {target} {frame}

theorem expecting_pending_of_some {label : Label} {expected : Frame}
    (h : body.pending[label]? = some expected) :
    (body.expecting target frame).pending[label]? = some expected := by
  unfold expecting
  split
  · exact h
  · next other =>
    split
    · next hfresh =>
      have hne : other ≠ label := by
        rintro rfl
        rw [hfresh.2] at h
        cases h
      simpa only [Std.TreeMap.getElem?_insert, Std.compare_eq_iff_eq, if_neg hne] using h
    · exact h

theorem expecting_pending_cases {label : Label} {expected : Frame}
    (h : (body.expecting target frame).pending[label]? = some expected) :
    body.pending[label]? = some expected ∨ target = some label ∧ expected = frame := by
  unfold expecting at h
  split at h
  · exact .inl h
  · split at h
    · rw [Std.TreeMap.getElem?_insert] at h
      split at h
      · next heq =>
        cases h
        exact .inr ⟨congrArg some (Std.compare_eq_iff_eq.mp heq), rfl⟩
      · exact .inl h
    · exact .inl h

theorem expecting_pending_self {label : Label} (hlabel : body.labels[label]? = none)
    (hpending : body.pending[label]? = none) :
    (body.expecting (some label) frame).pending[label]? = some frame := by
  rw [expecting, if_pos ⟨hlabel, hpending⟩, Std.TreeMap.getElem?_insert_self]

end Expecting

theorem size_eq_of_code {a b : Body} (h : a.code = b.code) : a.size = b.size := by
  rw [size, h, size]

theorem toNat_ofNat_size {body : Body} (hroom : body.size < 0x10000) :
    (UInt16.ofNat body.size).toNat = body.size :=
  UInt16.toNat_ofNat_of_lt hroom

@[simp]
theorem entered_size : body.entered.size = body.size := size_eq_of_code body.entered_code

@[simp]
theorem expecting_size (target : Option Label) (frame : Frame) :
    (body.expecting target frame).size = body.size :=
  size_eq_of_code (body.expecting_code target frame)

/-- What an accepted call does to a body. -/
inductive Advance (pool : Pool) : Call → Body → Prop where
  | push {instruction : Instruction} {frame : Frame}
      (heffect : instruction.effect pool body.current = .ok frame)
      (hroom : body.reachable = false → body.size < 0x10000) (hfits : Fits frame) :
      Advance pool (.push instruction) (body.entered.grown (.plain instruction) frame)
  | branch {b : Branch} {frame : Frame} (heffect : b.effect body.current = .ok frame)
      (hadmits : ∀ label, b.target? = some label → body.Admits frame label)
      (hroom : body.reachable = false → body.size < 0x10000) (hfits : Fits frame) :
      Advance pool (.branch b)
        { (body.expecting b.target? frame).entered.grown (.branch b) frame with
          reachable := !b.isUnconditional }
  /-- Labels get the current frame, the frame that jumps expect, or the frame of another label. -/
  | mark {call : Call} {label : Label} {frame : Frame}
      (hcall : call = .place label ∨ ∃ parent, call = .placeFrom label parent)
      (horigin : frame = body.current ∨ body.pending[label]? = some frame ∨
        ∃ parent : Label, body.labels[parent]? = some frame)
      (hfresh : body.labels[label]? = none)
      (hfall : body.reachable = true → body.current.Agrees frame)
      (hpending : ∀ expected, body.pending[label]? = some expected → frame.Agrees expected)
      (hroom : body.size < 0x10000) :
      Advance pool call (body.marked label (frame.placedAt (UInt16.ofNat body.size)))
  | freshLabel : Advance pool .freshLabel { body with supply := body.supply.fresh.2 }
  | allocLocal {type : FieldType} (hfits : Fits (body.withLocal type).current) :
      Advance pool (.allocLocal type) (body.withLocal type)
  | addStackMap : Advance pool .addStackMap { body with table := some #[] }
  | addConstant {addition : Pool.Addition} : Advance pool (.addConstant addition) body

/-! ### Parts of calls -/

section Parts

variable {body} {next : Body} {e : Error}

theorem fitValue_eq_error_iff {what : String} {value : Nat} :
    fitValue what value = .error e ↔ 0x10000 ≤ value ∧ e = .valueOverflow what value := by
  unfold fitValue
  split
  · next h => simp [Nat.not_le.mpr h]
  · next h => simp [Nat.le_of_not_lt h, eq_comm]

theorem sameFrame_eq_ok_iff {label : Label} {found expected : Frame} {u : Unit} :
    sameFrame label found expected = .ok u ↔ found.Agrees expected := by
  unfold sameFrame
  split <;> simp_all

theorem sameFrame_eq_error_iff {label : Label} {found expected : Frame} :
    sameFrame label found expected = .error e ↔
      ¬ found.Agrees expected ∧ e = .incompatibleFrames label found expected := by
  unfold sameFrame
  split
  · next h => simp [h]
  · next h => simp [h, eq_comm]

theorem gives_enter (h : Gives enter body () next) :
    next = body.entered ∧ (body.reachable = false → body.size < 0x10000) := by
  cases hreach : body.reachable with
  | true => simp_all [enter, entered]
  | false =>
    simp only [enter, gives_gets_bind, hreach, gives_ofExcept_bind, nextOffset, fitValue_eq_ok_iff,
      gives_modify, Bool.false_eq_true, ↓reduceIte] at h
    obtain ⟨_, ⟨hroom, rfl⟩, rfl⟩ := h
    simp [entered, hreach, hroom]

theorem fails_enter_iff :
    Fails enter body e next ↔ (body.reachable = false ∧ 0x10000 ≤ body.size ∧
      e = .valueOverflow "code offset" body.size) ∧ body = next := by
  cases hreach : body.reachable with
  | true => simp [enter, hreach]
  | false => simp [enter, hreach, nextOffset, fitValue_eq_error_iff]

theorem gives_raiseMaxima_iff :
    Gives raiseMaxima body () next ↔ next = body.raised ∧ Fits body.current := by
  simp only [raiseMaxima, gives_gets_bind, gives_ofExcept_bind, fitValue_eq_ok_iff, gives_modify]
  constructor
  · rintro ⟨_, ⟨hstack, rfl⟩, _, ⟨hlocals, rfl⟩, rfl⟩
    exact ⟨rfl, hstack, hlocals⟩
  · rintro ⟨rfl, hstack, hlocals⟩
    exact ⟨_, ⟨hstack, rfl⟩, _, ⟨hlocals, rfl⟩, rfl⟩

theorem fails_raiseMaxima_iff :
    Fails raiseMaxima body e next ↔ Exceeds body.current e ∧ body = next := by
  simp only [raiseMaxima, fails_gets_bind, fails_ofExcept_bind, fails_modify, and_false,
    exists_false, or_false, fitValue_eq_error_iff, fitValue_eq_ok_iff]
  constructor
  · rintro (⟨⟨hstack, rfl⟩, hnext⟩ | ⟨_, ⟨hstack, -⟩, ⟨hlocals, rfl⟩, hnext⟩)
    · exact ⟨.stack hstack, hnext⟩
    · exact ⟨.locals hstack hlocals, hnext⟩
  · rintro ⟨hstack | ⟨hstack, hlocals⟩, hnext⟩
    · exact .inl ⟨⟨hstack, rfl⟩, hnext⟩
    · exact .inr ⟨_, ⟨hstack, rfl⟩, ⟨hlocals, rfl⟩, hnext⟩

theorem gives_append_iff {operation : Operation} {frame : Frame} :
    Gives (append operation frame) body () next ↔
      next = body.grown operation frame ∧ Fits frame := by
  rw [append, gives_gets_bind, gives_modify_bind, gives_bind]
  constructor
  · rintro ⟨_, mid, hraise, hreport⟩
    rw [gives_report] at hreport
    exact hreport ▸ gives_raiseMaxima_iff.mp hraise
  · intro h
    exact ⟨(), next, gives_raiseMaxima_iff.mpr h, gives_report.mpr rfl⟩

/-- The operation is there when its frame turns out to be too large. -/
theorem fails_append_iff {operation : Operation} {frame : Frame} :
    Fails (append operation frame) body e next ↔ Exceeds frame e ∧
      { body with code := body.code.push ⟨body.size, operation⟩, current := frame } = next := by
  rw [append, fails_gets_bind, fails_modify_bind, fails_bind, fails_raiseMaxima_iff]
  simp only [fails_report, and_false, exists_false, or_false]

theorem gives_interpret {operation : Operation} {effect : Frame → Except Fault Frame}
    {frame : Frame} (h : Gives (interpret operation effect) body frame next) :
    effect body.current = .ok frame ∧ body = next := by
  cases heffect : effect body.current <;> simp_all [interpret]

theorem fails_interpret_iff {operation : Operation} {effect : Frame → Except Fault Frame} :
    Fails (interpret operation effect) body e next ↔
      ∃ fault, effect body.current = .error fault ∧ .invalidOperation operation fault = e ∧
        body = next := by
  cases heffect : effect body.current <;> simp [interpret, heffect]

theorem gives_expectFrame {target : Label} {frame : Frame}
    (h : Gives (expectFrame target frame) body () next) :
    body.Admits frame target ∧ next = body.expecting (some target) frame := by
  cases hplaced : body.labels[target]? with
  | some placed =>
    simp only [expectFrame, gives_gets_bind, hplaced, gives_ofExcept, sameFrame_eq_ok_iff] at h
    obtain ⟨hagrees, rfl⟩ := h
    simp [Admits, expecting, hplaced, hagrees]
  | none =>
    cases hpending : body.pending[target]? with
    | some expected =>
      simp only [expectFrame, gives_gets_bind, hplaced, hpending, gives_ofExcept,
        sameFrame_eq_ok_iff] at h
      obtain ⟨hagrees, rfl⟩ := h
      simp [Admits, expecting, hplaced, hpending, hagrees]
    | none =>
      simp only [expectFrame, gives_gets_bind, hplaced, hpending, gives_modify] at h
      subst h
      simp [Admits, expecting, hplaced, hpending]

theorem fails_expectFrame_iff {target : Label} {frame : Frame} :
    Fails (expectFrame target frame) body e next ↔
      (∃ found, (body.labels[target]? = some found ∨
          body.labels[target]? = none ∧ body.pending[target]? = some found) ∧
        ¬ frame.Agrees found ∧ e = .incompatibleFrames target frame found) ∧ body = next := by
  cases hplaced : body.labels[target]? with
  | some placed => simp [expectFrame, hplaced, sameFrame_eq_error_iff]
  | none =>
    cases hpending : body.pending[target]? <;>
      simp [expectFrame, hplaced, hpending, sameFrame_eq_error_iff]

theorem gives_placeWith {label : Label} {frame : Frame}
    (h : Gives (placeWith label frame) body () next) :
    body.labels[label]? = none ∧ (body.reachable = true → body.current.Agrees frame) ∧
      (∀ expected, body.pending[label]? = some expected → frame.Agrees expected) ∧
      body.size < 0x10000 ∧
      next = body.marked label (frame.placedAt (UInt16.ofNat body.size)) := by
  simp only [placeWith, gives_gets_bind] at h
  split at h
  · simp at h
  · next hcontains =>
    rw [Std.TreeMap.contains_eq_isSome_getElem?, Bool.not_eq_true, Option.isSome_eq_false_iff,
      Option.isNone_iff_eq_none] at hcontains
    refine ⟨hcontains, ?_⟩
    cases hreach : body.reachable <;> cases hpending : body.pending[label]? <;>
      simp_all [gives_ofExcept_bind, sameFrame_eq_ok_iff, nextOffset, fitValue_eq_ok_iff, and_assoc,
        marked]

/-- Why a label cannot be placed with a frame. The reasons are looked for in this order. -/
inductive Misplaced (body : Body) (label : Label) (frame : Frame) : Error → Prop where
  | duplicate (hplaced : body.labels[label]? ≠ none) :
      Misplaced body label frame (.duplicateLabel label)
  | falling (hfresh : body.labels[label]? = none) (hreach : body.reachable = true)
      (hdiffers : ¬ body.current.Agrees frame) :
      Misplaced body label frame (.incompatibleFrames label body.current frame)
  | jumping {expected : Frame} (hfresh : body.labels[label]? = none)
      (hfall : body.reachable = true → body.current.Agrees frame)
      (hpending : body.pending[label]? = some expected) (hdiffers : ¬ frame.Agrees expected) :
      Misplaced body label frame (.incompatibleFrames label frame expected)
  | offset (hfresh : body.labels[label]? = none)
      (hfall : body.reachable = true → body.current.Agrees frame)
      (hpending : ∀ expected, body.pending[label]? = some expected → frame.Agrees expected)
      (hsize : 0x10000 ≤ body.size) :
      Misplaced body label frame (.valueOverflow "code offset" body.size)

theorem fails_placeWith_iff {label : Label} {frame : Frame} :
    Fails (placeWith label frame) body e next ↔ Misplaced body label frame e ∧ body = next := by
  cases hplaced : body.labels[label]? with
  | some placed =>
    have hcontains : body.labels.contains label = true := by
      rw [Std.TreeMap.contains_eq_isSome_getElem?, hplaced, Option.isSome_some]
    simp only [placeWith, fails_gets_bind, hcontains, if_true, fails_fail_bind]
    refine and_congr_left fun _ => ⟨?_, ?_⟩
    · rintro rfl
      exact .duplicate (by simp [hplaced])
    · rintro (_ | ⟨hfresh⟩ | ⟨hfresh⟩ | ⟨hfresh⟩) <;> simp_all
  | none =>
    have hcontains : body.labels.contains label = false := by
      rw [Std.TreeMap.contains_eq_isSome_getElem?, hplaced, Option.isSome_none]
    simp only [placeWith, fails_gets_bind, hcontains]
    cases hreach : body.reachable <;> cases hpending : body.pending[label]? <;>
      simp [hreach, hpending, sameFrame_eq_ok_iff, sameFrame_eq_error_iff, nextOffset,
        fitValue_eq_error_iff] <;>
      grind [Misplaced, cases Misplaced]

theorem gives_place {label : Label} (h : Gives (place label) body () next) :
    ∃ frame, (frame = body.current ∨ body.pending[label]? = some frame) ∧
      Gives (placeWith label frame) body () next := by
  simp only [place, gives_gets_bind] at h
  refine ⟨_, ?_, h⟩
  cases hpending : body.pending[label]? <;> cases hreach : body.reachable <;> simp

theorem gives_placeFrom {label parent : Label} (h : Gives (placeFrom label parent) body () next) :
    ∃ frame, body.labels[parent]? = some frame ∧ Gives (placeWith label frame) body () next := by
  cases hparent : body.labels[parent]? <;> simp_all [placeFrom]

theorem gives_allocLocal {type : FieldType} {index : UInt16}
    (h : Gives (allocLocal type) body index next) :
    next = body.withLocal type ∧ Fits (body.withLocal type).current := by
  rw [allocLocal, gives_gets_bind, gives_ofExcept_bind] at h
  obtain ⟨_, -, h⟩ := h
  rw [gives_modify_bind, gives_bind_pure] at h
  exact gives_raiseMaxima_iff.mp h.choose_spec.1

theorem fails_allocLocal_iff {type : FieldType} :
    Fails (allocLocal type) body e next ↔
      (0x10000 ≤ body.current.locals.size ∧
        e = .valueOverflow "local variable index" body.current.locals.size ∧ body = next) ∨
      body.current.locals.size < 0x10000 ∧ Exceeds (body.withLocal type).current e ∧
        { body with current := (body.withLocal type).current } = next := by
  rw [allocLocal, fails_gets_bind, fails_ofExcept_bind]
  simp only [fails_modify_bind, fails_bind_pure, fails_raiseMaxima_iff, fitValue_eq_error_iff,
    fitValue_eq_ok_iff, and_assoc]
  refine or_congr_right ⟨?_, ?_⟩
  · rintro ⟨_, hsize, -, hexceeds, hnext⟩
    exact ⟨hsize, hexceeds, hnext⟩
  · rintro ⟨hsize, hexceeds, hnext⟩
    exact ⟨_, hsize, rfl, hexceeds, hnext⟩

theorem gives_attachStackMap (h : Gives (attach .stackMapTable) body () next) :
    next = { body with table := some #[] } :=
  h.2.symm

theorem fails_attachStackMap : ¬ Fails (attach .stackMapTable) body e next := by
  simp [attach, Attribute.attach, Attribute.create, fails_bind, gives_bind]

end Parts

/-! ### Calls as a whole -/

variable {body} {pool : Pool} {call : Call} {next : Body × Pool} {e : Error}

theorem advance_push {instruction : Instruction} {next : Body}
    (h : Gives (push pool instruction) body () next) :
    body.Advance pool (.push instruction) next := by
  rw [push, gives_bind] at h
  obtain ⟨frame, _, hinterpret, h⟩ := h
  obtain ⟨heffect, rfl⟩ := gives_interpret hinterpret
  rw [gives_bind] at h
  obtain ⟨_, _, henter, happend⟩ := h
  obtain ⟨rfl, hroom⟩ := gives_enter henter
  obtain ⟨rfl, hfits⟩ := gives_append_iff.mp happend
  exact .push heffect hroom hfits

/-- What is left of a branch once its frame is known to its target. -/
theorem gives_branchEnd {b : Branch} {frame : Frame} {next : Body}
    (h : Gives (do
      enter
      append (.branch b) frame
      if b.isUnconditional then
        Action.modify fun body => { body with reachable := false }) body () next) :
    next = { body.entered.grown (.branch b) frame with reachable := !b.isUnconditional } ∧
      (body.reachable = false → body.size < 0x10000) ∧ Fits frame := by
  rw [gives_bind] at h
  obtain ⟨_, _, henter, h⟩ := h
  obtain ⟨rfl, hroom⟩ := gives_enter henter
  rw [gives_bind] at h
  obtain ⟨_, _, happend, h⟩ := h
  obtain ⟨rfl, hfits⟩ := gives_append_iff.mp happend
  refine ⟨?_, hroom, hfits⟩
  cases hjump : b.isUnconditional with
  | true =>
    simp only [hjump, if_true, gives_modify] at h
    exact h.symm
  | false =>
    simp only [hjump, Bool.false_eq_true, if_false, gives_pure, true_and] at h
    subst h
    simp [grown, raised]

theorem advance_pushBranch {b : Branch} {next : Body} (h : Gives (pushBranch b) body () next) :
    body.Advance pool (.branch b) next := by
  rw [pushBranch, gives_bind] at h
  obtain ⟨frame, _, hinterpret, h⟩ := h
  obtain ⟨heffect, rfl⟩ := gives_interpret hinterpret
  cases htarget : b.target? with
  | none =>
    simp only [htarget] at h
    obtain ⟨rfl, hroom, hfits⟩ := gives_branchEnd h
    have hexpecting : body.expecting b.target? frame = body := by rw [htarget, expecting]
    have hadvance : body.Advance pool (.branch b) _ :=
      .branch heffect (by simp [htarget]) hroom hfits
    rwa [hexpecting] at hadvance
  | some target =>
    simp only [htarget] at h
    rw [gives_bind] at h
    obtain ⟨_, _, hexpect, h⟩ := h
    obtain ⟨hadmits, rfl⟩ := gives_expectFrame hexpect
    obtain ⟨rfl, hroom, hfits⟩ := gives_branchEnd h
    rw [← htarget]
    refine .branch heffect ?_ (by simpa using hroom) hfits
    intro label hlabel
    obtain rfl : target = label := Option.some.inj (htarget.symm.trans hlabel)
    exact hadmits

theorem advance_placeWith {label : Label} {frame : Frame} {next : Body}
    (hcall : call = .place label ∨ ∃ parent, call = .placeFrom label parent)
    (horigin : frame = body.current ∨ body.pending[label]? = some frame ∨
      ∃ parent : Label, body.labels[parent]? = some frame)
    (h : Gives (placeWith label frame) body () next) : body.Advance pool call next := by
  obtain ⟨hfresh, hfall, hpending, hroom, rfl⟩ := gives_placeWith h
  exact .mark hcall horigin hfresh hfall hpending hroom

theorem advance_of_gives {reply : Reply} (h : Gives call.run (body, pool) reply next) :
    body.Advance pool call next.1 := by
  cases call with
  | push instruction =>
    obtain ⟨_, h, -⟩ := gives_bind_pure.mp h
    exact advance_push (gives_onFstWith.mp h).1
  | branch b =>
    obtain ⟨_, h, -⟩ := gives_bind_pure.mp h
    exact advance_pushBranch (gives_onFst.mp h).1
  | place label =>
    obtain ⟨_, h, -⟩ := gives_bind_pure.mp h
    obtain ⟨frame, horigin, hplace⟩ := gives_place (gives_onFst.mp h).1
    exact advance_placeWith (.inl rfl) (horigin.imp_right .inl) hplace
  | placeFrom label parent =>
    obtain ⟨_, h, -⟩ := gives_bind_pure.mp h
    obtain ⟨frame, hparent, hplace⟩ := gives_placeFrom (gives_onFst.mp h).1
    exact advance_placeWith (.inr ⟨parent, rfl⟩) (.inr (.inr ⟨parent, hparent⟩)) hplace
  | freshLabel =>
    obtain ⟨_, h, -⟩ := gives_bind_pure.mp h
    rw [← (gives_onFst.mp h).1.2]
    exact .freshLabel
  | allocLocal type =>
    obtain ⟨_, h, -⟩ := gives_bind_pure.mp h
    obtain ⟨hnext, hfits⟩ := gives_allocLocal (gives_onFst.mp h).1
    rw [hnext]
    exact .allocLocal hfits
  | addStackMap =>
    obtain ⟨_, h, -⟩ := gives_bind_pure.mp h
    rw [gives_attachStackMap (gives_onFst.mp h).1]
    exact .addStackMap
  | addConstant addition =>
    obtain ⟨_, h, -⟩ := gives_bind_pure.mp h
    rw [← (gives_onSnd.mp h).1]
    exact .addConstant

theorem growsTo_run (call : Call) (s : Body × Pool) : s.2.GrowsTo (call.run s).state.2 := by
  cases call with
  | addConstant addition =>
    rw [Call.run, state_bind_pure]
    exact (Pool.repeats_run addition).moves s.2
  | _ =>
    rw [Call.run, state_bind_pure]
    exact Pool.GrowsTo.refl s.2

end Body

end Classfile
