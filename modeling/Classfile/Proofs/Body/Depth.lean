import Classfile.Proofs.Body.Maxima
import Classfile.Proofs.Layout.Decodability

/-!
# Depth of the stack

An operation puts at most one value more on the stack than it takes off, and it has at least one
byte. So no frame that a body holds is deeper than the code is long, whatever comes of the calls. A
stack that is too deep to be counted then needs more code than can be written.
-/

namespace Classfile

/-! ### Effects -/

namespace Frame

def depth (frame : Frame) : Nat := frame.stack.length

/-- If a frame comes out, its stack is at most so deep. -/
def Within (bound : Nat) (x : Except Fault Frame) : Prop :=
  ∀ next, x = .ok next → next.depth ≤ bound

variable {frame : Frame} {bound : Nat} {α : Type}

theorem within_ok (h : frame.depth ≤ bound) : Within bound (.ok frame) := by
  rintro next ⟨⟩
  exact h

theorem within_bind {x : Except Fault α} {f : α → Except Fault Frame}
    (h : ∀ a, x = .ok a → Within bound (f a)) : Within bound (x >>= f) := by
  intro next hnext
  obtain ⟨a, ha, hnext⟩ := bind_eq_ok hnext
  exact h a ha next hnext

theorem within_pop {f : FieldType × Frame → Except Fault Frame}
    (h : ∀ type rest, rest.depth + 1 = frame.depth → Within bound (f (type, rest))) :
    Within bound (frame.pop >>= f) := by
  refine within_bind fun (type, rest) hpop => h type rest ?_
  unfold pop at hpop
  split at hpop
  · cases hpop
  · next hstack =>
    cases hpop
    rw [depth, depth, hstack, List.length_cons]

theorem within_popArray {f : FieldType × Frame → Except Fault Frame}
    (h : ∀ type rest, rest.depth + 1 = frame.depth → Within bound (f (type, rest))) :
    Within bound (frame.popArray >>= f) := by
  unfold popArray
  rw [bind_assoc]
  refine within_pop fun array rest hrest => ?_
  cases hcomponent : array.component? with
  | none =>
    intro next hnext
    simp only [hcomponent] at hnext
    cases hnext
  | some component =>
    simp only [hcomponent]
    exact h component rest hrest

theorem depth_popMany {count : Nat} {rest : Frame} (h : frame.popMany count = .ok rest) :
    rest.depth + count = frame.depth := by
  unfold popMany at h
  split at h
  · next hcount =>
    cases h
    rw [depth, List.length_drop, Nat.sub_add_cancel hcount, depth]
  · cases h

theorem within_popMany {count : Nat} (h : frame.depth ≤ bound) :
    Within bound (frame.popMany count) := by
  intro rest hrest
  have hdepth := depth_popMany hrest
  omega

theorem within_setLocal {i : UInt16} {type : FieldType} (h : frame.depth ≤ bound) :
    Within bound (frame.setLocal i type) := by
  unfold setLocal
  split
  · exact within_ok h
  · split
    · exact within_ok h
    · intro next hnext
      cases hnext

theorem depth_pushResult_le (frame : Frame) (result : Option FieldType) :
    (frame.pushResult result).depth ≤ frame.depth + 1 := by
  cases result with
  | none => exact Nat.le_succ _
  | some type => exact Nat.le_refl _

end Frame

open Classfile.Frame

theorem Instruction.within_effect (i : Instruction) (pool : Pool) (frame : Frame) :
    Within (frame.depth + 1) (i.effect pool frame) := by
  have hkept (rest : Frame) (h : rest.depth ≤ frame.depth) : Within (frame.depth + 1) (.ok rest) :=
    within_ok (Nat.le_succ_of_le h)
  have hpushed (rest : Frame) (type : FieldType) (h : rest.depth ≤ frame.depth) :
      Within (frame.depth + 1) (.ok (rest.push type)) :=
    within_ok (Nat.succ_le_succ h)
  have hloaded (type : FieldType) : Within (frame.depth + 1) (.ok (frame.push type)) :=
    hpushed frame type (Nat.le_refl _)
  cases i with
  | smallInt _ => exact hloaded _
  | pushByte _ => exact hloaded _
  | pushShort _ => exact hloaded _
  | loadConstant constant => exact within_bind fun _ _ => hloaded _
  | load slot i => cases slot <;> exact within_bind fun _ _ => hloaded _
  | store slot i => exact within_pop fun _ rest hrest => within_setLocal (by omega)
  | loadCell cell =>
    cases cell <;> exact within_pop fun _ rest hrest => within_popArray fun _ below hbelow =>
      hpushed below _ (by omega)
  | storeCell cell => exact within_popMany (Nat.le_succ _)
  | pop => exact within_pop fun _ rest hrest => hkept rest (by omega)
  | dup => exact within_bind fun _ _ => hloaded _
  | swap =>
    exact within_pop fun top rest hrest => within_pop fun _ below hbelow =>
      hpushed (below.push top) _ (by change below.depth + 1 ≤ _; omega)
  | arith op =>
    refine within_bind fun rest hrest => hpushed rest _ ?_
    have hdepth := depth_popMany hrest
    omega
  | negate => exact within_pop fun _ rest hrest => hpushed rest _ (by omega)
  | increment i amount => exact within_bind fun _ _ => hkept frame (Nat.le_refl _)
  | getStatic field => exact within_bind fun _ _ => hloaded _
  | putStatic field => exact within_pop fun _ rest hrest => hkept rest (by omega)
  | getField field =>
    exact within_bind fun _ _ => within_pop fun _ rest hrest => hpushed rest _ (by omega)
  | putField field => exact within_popMany (Nat.le_succ _)
  | invoke dispatch method =>
    refine within_bind fun type _ => within_bind fun rest hrest => within_ok ?_
    have hdepth := depth_popMany hrest
    have hresult := depth_pushResult_le rest type.result
    omega
  | new type => exact within_bind fun _ _ => hloaded _
  | newArray element => exact within_pop fun _ rest hrest => hpushed rest _ (by omega)
  | newRefArray element =>
    exact within_bind fun _ _ => within_pop fun _ rest hrest => hpushed rest _ (by omega)
  | arrayLength => exact within_popArray fun _ rest hrest => hpushed rest _ (by omega)

theorem Branch.within_effect (b : Branch) (frame : Frame) :
    Within frame.depth (b.effect frame) := by
  cases b with
  | ifZero test target =>
    exact within_pop fun _ rest hrest => within_ok (Nat.le_of_succ_le (Nat.le_of_eq hrest))
  | ifInts test target => exact within_popMany (Nat.le_refl _)
  | ifRefs test target => exact within_popMany (Nat.le_refl _)
  | goto target => exact within_ok (Nat.le_refl _)
  | leave value =>
    cases value with
    | none => exact within_ok (Nat.zero_le _)
    | some slot => exact within_pop fun _ _ _ => within_ok (Nat.zero_le _)

theorem Operation.within_effect (operation : Operation) (pool : Pool) (frame : Frame) :
    Within (frame.depth + operation.width) (operation.effect pool frame) := by
  intro next hnext
  have hwidth := operation.width_pos
  cases operation with
  | plain i =>
    have hdepth := i.within_effect pool frame next hnext
    omega
  | branch b =>
    have hdepth := b.within_effect frame next hnext
    omega

/-- A jump leaves no more values than there were. -/
theorem Operation.within_of_target {operation : Operation} {label : Label}
    (h : operation.target? = some label) (pool : Pool) (frame : Frame) :
    Within frame.depth (operation.effect pool frame) := by
  cases operation with
  | plain i => cases h
  | branch b => exact b.within_effect frame

/-! ### Code that is too long -/

/-- The length of the code is checked before any attribute is written. -/
theorem Layout.toBytes_code_of_le {code : Layout.Code} (h : 0x10000 ≤ code.code.bytes.length) :
    (emit code).toBytes = .error (.lengthOverflow "code" code.code.bytes.length) := by
  have hcode : (emit code.code).stop = some (.lengthOverflow "code" code.code.bytes.length) := by
    change (Emission.check (fitLength16 _ _) _).stop = _
    rw [fitLength16, if_neg (Nat.not_lt.mpr h)]
    rfl
  have hstop : (emit code).stop = some (.lengthOverflow "code" code.code.bytes.length) :=
    Emission.stop_append_of_some (Emission.stop_append_of_some
      ((Emission.stop_append_of_none rfl).trans hcode))
  rw [Emission.toBytes, hstop]

namespace Body

open Classfile.Action

/-! ### What a call does to the frames -/

/-- A frame of the second body is deeper than some frame of the first by no more than the code has
grown. -/
structure Deepens (body next : Body) : Prop where
  size_le : body.size ≤ next.size
  depth_le : ∀ frame, next.Holds frame →
    ∃ earlier, body.Holds earlier ∧ frame.depth + body.size ≤ earlier.depth + next.size

section Deepens

variable {body next last : Body} {frame : Frame}

theorem Deepens.refl (body : Body) : Deepens body body :=
  ⟨Nat.le_refl _, fun frame hframe => ⟨frame, hframe, Nat.le_refl _⟩⟩

theorem Deepens.trans (h : Deepens body next) (h' : Deepens next last) : Deepens body last := by
  refine ⟨Nat.le_trans h.size_le h'.size_le, fun frame hframe => ?_⟩
  obtain ⟨middle, hmiddle, hdepth'⟩ := h'.depth_le frame hframe
  obtain ⟨earlier, hearlier, hdepth⟩ := h.depth_le middle hmiddle
  exact ⟨earlier, hearlier, by omega⟩

/-- The body holds a frame that is at least so deep. -/
def Reaches (body : Body) (depth : Nat) : Prop := ∃ frame, body.Holds frame ∧ depth ≤ frame.depth

theorem Holds.reaches (h : body.Holds frame) : body.Reaches frame.depth :=
  ⟨frame, h, Nat.le_refl _⟩

theorem reaches_of_stack (hstack : frame.stack = body.current.stack) : body.Reaches frame.depth :=
  ⟨body.current, .current, Nat.le_of_eq (congrArg List.length hstack)⟩

/-- No frame becomes deeper where the code stays. -/
theorem deepens_of_code (hcode : next.code = body.code)
    (h : ∀ frame, next.Holds frame → body.Reaches frame.depth) : Deepens body next := by
  have hsize : next.size = body.size := size_eq_of_code hcode
  refine ⟨Nat.le_of_eq hsize.symm, fun frame hframe => ?_⟩
  obtain ⟨earlier, hearlier, hdepth⟩ := h frame hframe
  exact ⟨earlier, hearlier, by omega⟩

/-- Apart from the current frame, bodies that resemble each other hold the same frames. -/
theorem Resembles.holds_cases (h : body.Resembles next) (hframe : next.Holds frame) :
    frame = next.current ∨ body.Holds frame := by
  cases hframe with
  | current => exact .inl rfl
  | recorded hmem => exact .inr (.recorded (h.frames ▸ hmem))
  | placed hlabel => exact .inr (.placed (h.labels ▸ hlabel))
  | expected hpending => exact .inr (.expected (h.pending ▸ hpending))

theorem Resembles.deepens (h : body.Resembles next)
    (hstack : next.current.stack = body.current.stack) : Deepens body next := by
  refine deepens_of_code h.code fun frame hframe => ?_
  obtain rfl | hframe := h.holds_cases hframe
  · exact reaches_of_stack hstack
  · exact hframe.reaches

theorem deepens_expecting {target : Option Label}
    (h : ∀ label, target = some label → frame.depth ≤ body.current.depth) :
    Deepens body (body.expecting target frame) := by
  refine deepens_of_code (body.expecting_code target frame) fun held hheld => ?_
  cases hheld with
  | current => exact reaches_of_stack (congrArg Frame.stack (body.expecting_current target frame))
  | recorded hmem => exact (Holds.recorded (body.expecting_frames target frame ▸ hmem)).reaches
  | placed hlabel => exact (Holds.placed (body.expecting_labels target frame ▸ hlabel)).reaches
  | @expected label _ hpending =>
    obtain hpending | ⟨htarget, rfl⟩ := expecting_pending_cases hpending
    · exact (Holds.expected hpending).reaches
    · exact ⟨body.current, .current, h label htarget⟩

theorem deepens_entered (body : Body) : Deepens body body.entered := by
  refine deepens_of_code body.entered_code fun held hheld => ?_
  cases hheld with
  | current => exact reaches_of_stack (congrArg Frame.stack body.entered_current)
  | recorded hmem =>
    obtain hmem | hagrees := frames_entered_cases hmem
    · exact (Holds.recorded hmem).reaches
    · exact reaches_of_stack hagrees.2.symm
  | placed hlabel => exact (Holds.placed (body.entered_labels ▸ hlabel)).reaches
  | expected hpending => exact (Holds.expected (body.entered_pending ▸ hpending)).reaches

theorem deepens_marked (label : Label) (offset : UInt16) (h : body.Holds frame) :
    Deepens body (body.marked label (frame.placedAt offset)) := by
  have hmarked : body.Reaches (frame.placedAt offset).depth := h.reaches
  refine deepens_of_code rfl fun held hheld => ?_
  cases hheld with
  | current => exact hmarked
  | recorded hmem =>
    rw [marked, Array.toList_push, List.mem_append, List.mem_singleton] at hmem
    obtain hmem | rfl := hmem
    · exact (Holds.recorded hmem).reaches
    · exact hmarked
  | placed hlabel =>
    rw [marked_labels] at hlabel
    split at hlabel
    · cases hlabel
      exact hmarked
    · exact (Holds.placed hlabel).reaches
  | expected hpending =>
    rw [marked_pending] at hpending
    split at hpending
    · cases hpending
    · exact (Holds.expected hpending).reaches

/-- The code grows by the operation, and nothing but the current frame may be deeper. -/
theorem deepens_grown {operation : Operation}
    (h : frame.depth ≤ body.current.depth + operation.width) :
    Deepens body (body.grown operation frame) := by
  have hsize := body.grown_size operation frame
  refine ⟨by omega, fun held hheld => ?_⟩
  have hother : body.Holds held → ∃ earlier, body.Holds earlier ∧
      held.depth + body.size ≤ earlier.depth + (body.grown operation frame).size :=
    fun hheld => ⟨held, hheld, by omega⟩
  cases hheld with
  | current =>
    refine ⟨body.current, .current, ?_⟩
    change frame.depth + body.size ≤ _
    omega
  | recorded hmem => exact hother (.recorded hmem)
  | placed hlabel => exact hother (.placed hlabel)
  | expected hpending => exact hother (.expected hpending)

theorem deepens_append {operation : Operation} {pool : Pool}
    (heffect : operation.effect pool body.current = .ok frame) :
    Deepens body ((body.expecting operation.target? frame).entered.grown operation frame) := by
  refine ((deepens_expecting fun label htarget => ?_).trans (deepens_entered _)).trans
    (deepens_grown ?_)
  · exact operation.within_of_target htarget pool body.current frame heffect
  · rw [entered_current, expecting_current]
    exact operation.within_effect pool body.current frame heffect

theorem Advance.deepens {pool : Pool} {call : Call} (h : body.Advance pool call next) :
    Deepens body next := by
  cases h with
  | @push instruction frame heffect =>
    have hplain : (Operation.plain instruction).effect pool body.current = .ok frame := heffect
    exact deepens_append hplain
  | @branch b frame heffect =>
    have hbranch : (Operation.branch b).effect pool body.current = .ok frame := heffect
    exact (deepens_append hbranch).trans (Resembles.deepens ⟨rfl, rfl, rfl, rfl⟩ rfl)
  | mark hcall horigin =>
    obtain rfl | hpending | ⟨parent, hparent⟩ := horigin
    · exact deepens_marked _ _ .current
    · exact deepens_marked _ _ (.expected hpending)
    · exact deepens_marked _ _ (.placed hparent)
  | freshLabel => exact Resembles.deepens ⟨rfl, rfl, rfl, rfl⟩ rfl
  | allocLocal => exact Resembles.deepens ⟨rfl, rfl, rfl, rfl⟩ rfl
  | addStackMap => exact Resembles.deepens ⟨rfl, rfl, rfl, rfl⟩ rfl
  | addConstant => exact .refl body

theorem Overrun.deepens {pool : Pool} {call : Call} {e : Error}
    (h : Overrun body pool call e next) : Deepens body next := by
  cases h with
  | label => exact .refl body
  | @offset _ operation frame _ heffect =>
    exact deepens_expecting fun label htarget =>
      operation.within_of_target htarget pool body.current frame heffect
  | append _ heffect =>
    refine (deepens_append heffect).trans (Resembles.deepens ⟨?_, rfl, rfl, rfl⟩ rfl)
    simp [grown, raised]
  | index => exact .refl body
  | allocLocal => exact Resembles.deepens ⟨rfl, rfl, rfl, rfl⟩ rfl

end Deepens

/-! ### Calls that run into a limit -/

theorem overrun_of_fails {call : Call} {s next : Body × Pool} {what : String} {value : Nat}
    (h : Fails call.run s (.valueOverflow what value) next) :
    Overrun s.1 s.2 call (.valueOverflow what value) next.1 := by
  by_cases hcall : ∃ addition, call = .addConstant addition
  · obtain ⟨addition, rfl⟩ := hcall
    -- The pool fails for want of room, or for an attribute that is too long.
    have hpool : FailsWith (fun e => ¬ e.isValueOverflow) addition.run := by
      refine Pool.failsWith_run (fun _ => Bool.false_ne_true) (fun body e he => ?_) addition
      obtain ⟨_, _, rfl⟩ := (Layout.overflows_body body).error e he
      exact Bool.false_ne_true
    exact absurd rfl (hpool (fails_onSnd.mp (fails_bind_pure.mp h)).2)
  · exact (stopped_of_fails h (not_exists.mp hcall)).resolve_left fun hsame => hsame.1 rfl

theorem deepens_run (call : Call) (s : Body × Pool) : Deepens s.1 (call.run s).state.1 := by
  obtain ⟨reply, hgives⟩ | ⟨e, hfails⟩ := gives_or_fails call.run s
  · exact (advance_of_gives hgives).deepens
  · by_cases hoverflow : e.isValueOverflow
    · cases e with
      | valueOverflow what value => exact (overrun_of_fails hfails).deepens
      | _ => cases hoverflow
    · rw [unchanged_of_fails hfails hoverflow]
      exact .refl s.1

theorem Exceeds.depth {frame : Frame} {e : Error} {value : Nat} (h : Exceeds frame e)
    (he : e = .valueOverflow "max_stack" value) : 0x10000 ≤ value ∧ frame.depth = value := by
  cases h with
  | stack hdepth =>
    cases he
    exact ⟨hdepth, rfl⟩
  | locals => simp at he

/-- A call that finds more values on the stack than can be counted leaves them there. -/
theorem Overrun.depth {body next : Body} {pool : Pool} {call : Call} {e : Error} {value : Nat}
    (h : Overrun body pool call e next) (he : e = .valueOverflow "max_stack" value) :
    0x10000 ≤ value ∧ next.current.depth = value := by
  cases h with
  | append _ _ _ hexceeds => exact hexceeds.depth he
  | allocLocal hexceeds => exact hexceeds.depth he
  | _ => simp at he

/-! ### Lowered bodies -/

theorem length_flatten_of_mapM {body : Body} {code : List Placed} {chunks : List (List UInt8)}
    (h : code.mapM body.resolve = .ok chunks) : chunks.flatten.length = extent code := by
  induction code generalizing chunks with
  | nil =>
    cases h
    rfl
  | cons placed rest ih =>
    rw [List.mapM_cons] at h
    obtain ⟨bytes, hbytes, h⟩ := bind_eq_ok h
    obtain ⟨others, hothers, h⟩ := bind_eq_ok h
    cases h
    obtain ⟨distance, rfl, -⟩ := exists_of_resolve_eq_ok hbytes
    rw [List.flatten_cons, List.length_append, Operation.length_encode, ih hothers, extent_cons]

/-- The distances take the places that were kept for them. -/
theorem length_assemble {body : Body} {bytes : List UInt8} (h : body.assemble = .ok bytes) :
    bytes.length = body.bytecode.length := by
  obtain ⟨chunks, hchunks, hflatten⟩ := bind_eq_ok h
  cases hflatten
  rw [bytecode, length_flatMap_encode]
  exact length_flatten_of_mapM hchunks

theorem length_lower {body : Body} {pool : Pool} {code : Layout.Code}
    (h : (lower (body, pool)).result = .ok code) :
    code.code.bytes.length = body.bytecode.length := by
  obtain ⟨bytes, attributes, hbytes, -, -, rfl⟩ := gives_lower_iff.mp (gives_of_result h)
  exact length_assemble hbytes

/-! ### Runs -/

theorem deepens_final (calls : List Call) (s : Body × Pool) :
    Deepens s.1 (Run.final Call.run calls s).1 :=
  Run.final_of_kept Call.run (P := fun now => Deepens s.1 now.1)
    (fun call now h => h.trans (deepens_run call now)) (.refl s.1) calls

section Start

variable {type : MethodType} {flags : Flags .method} {owner : String} {body : Body}

theorem depth_start (h : start type flags owner = .ok body) {frame : Frame}
    (hframe : body.Holds frame) : frame.depth = 0 := by
  obtain ⟨earlier, hmem, -, hstack⟩ := (Gauged.start h).recalled frame hframe
  obtain rfl := List.mem_singleton.mp hmem
  rw [depth, ← hstack, (start_eq_ok h).1]
  rfl

theorem length_bytecode_final (h : start type flags owner = .ok body) (pool : Pool)
    (calls : List Call) : (Run.final Call.run calls (body, pool)).1.bytecode.length =
      (Run.final Call.run calls (body, pool)).1.size := by
  have hlaid : (Run.final Call.run calls (body, pool)).1.WellLaid :=
    wellLaid_final (wellLaid_start h) calls
  exact hlaid.length_bytecode

theorem depth_le_length_bytecode (h : start type flags owner = .ok body) (pool : Pool)
    (calls : List Call) {frame : Frame}
    (hframe : (Run.final Call.run calls (body, pool)).1.Holds frame) :
    frame.depth ≤ (Run.final Call.run calls (body, pool)).1.bytecode.length := by
  obtain ⟨earlier, hearlier, hdepth⟩ := (deepens_final calls (body, pool)).depth_le frame hframe
  rw [depth_start h hearlier] at hdepth
  rw [length_bytecode_final h]
  omega

/-- Where a step finds more values than can be counted, there is code for each of them, then and
later. -/
theorem le_length_bytecode_of_fails (h : start type flags owner = .ok body) {pool : Pool}
    {calls : List Call} {step : Run.Step (Body × Pool) Call}
    (hstep : step ∈ Run.steps Call.run calls (body, pool)) {value : Nat}
    (hfails : (step.outcome Call.run).result = .error (.valueOverflow "max_stack" value)) :
    0x10000 ≤ value ∧ value ≤ (step.after Call.run).1.bytecode.length ∧
      (step.after Call.run).1.bytecode.length ≤
        (Run.final Call.run calls (body, pool)).1.bytecode.length := by
  have hcall : Fails step.call.run step.before _ (step.after Call.run) := ⟨hfails, rfl⟩
  obtain ⟨hvalue, hdepth⟩ := (overrun_of_fails hcall).depth rfl
  obtain ⟨before, after, hsteps⟩ := List.append_of_mem hstep
  obtain ⟨first, second, -, hbefore, -, hfinal⟩ := Run.exists_of_steps_eq Call.run hsteps
  have hafter : step.after Call.run = Run.final Call.run (first ++ [step.call]) (body, pool) := by
    rw [Run.final_append, ← hbefore]
    rfl
  have hsize := length_bytecode_final h pool (first ++ [step.call])
  have hlong := depth_le_length_bytecode h pool (first ++ [step.call]) .current
  rw [← hafter] at hsize hlong
  refine ⟨hvalue, hdepth ▸ hlong, ?_⟩
  rw [hsize, length_bytecode_final h, hfinal]
  exact (deepens_final second (step.after Call.run)).size_le

end Start

/-- **Bounded stacks.** Whatever the calls on a fresh body and whatever comes of them, no frame that
the body holds has more values on its stack than the body has bytes. So a call finds more values
than can be counted only in a body with more bytes than can be written. Once lowered, such a body is
refused for the length of its code, and no attribute is made of it then or later. -/
theorem stack_bounded {type : MethodType} {flags : Flags .method} {owner : String} {body : Body}
    (hstart : start type flags owner = .ok body) (pool : Pool) (calls : List Call) :
    let steps := Run.steps Call.run calls (body, pool)
    let now := (Run.final Call.run calls (body, pool)).1
    (∀ frame, now.Holds frame → frame.stack.length ≤ now.bytecode.length) ∧
    (∀ step ∈ steps, ∀ value,
      (step.outcome Call.run).result = .error (.valueOverflow "max_stack" value) →
      0x10000 ≤ (step.after Call.run).1.bytecode.length) ∧
    (0x10000 ≤ now.bytecode.length → ∀ later code, (lower (now, later)).result = .ok code →
      (emit code).toBytes = .error (.lengthOverflow "code" now.bytecode.length)) ∧
    ∀ later written, (lowerAttribute (now, later)).result = .ok written → ∀ step ∈ steps,
      ∀ value, (step.outcome Call.run).result ≠ .error (.valueOverflow "max_stack" value) := by
  intro steps now
  have hrefused : 0x10000 ≤ now.bytecode.length → ∀ later code,
      (lower (now, later)).result = .ok code →
      (emit code).toBytes = .error (.lengthOverflow "code" now.bytecode.length) := by
    intro hlong later code hcode
    rw [← length_lower hcode] at hlong ⊢
    exact Layout.toBytes_code_of_le hlong
  refine ⟨fun frame => depth_le_length_bytecode hstart pool calls, ?_, hrefused, ?_⟩
  · intro step hstep value hfails
    obtain ⟨hvalue, hlength, -⟩ := le_length_bytecode_of_fails hstart hstep hfails
    exact Nat.le_trans hvalue hlength
  · intro later written hwritten step hstep value hfails
    obtain ⟨hvalue, hlength, hlater⟩ := le_length_bytecode_of_fails hstart hstep hfails
    have hlong : 0x10000 ≤ now.bytecode.length :=
      Nat.le_trans hvalue (Nat.le_trans hlength hlater)
    obtain ⟨code, _, hcode, hgives⟩ := gives_bind.mp (gives_of_result hwritten)
    obtain ⟨_, _, -, hbytes⟩ := gives_bind.mp (gives_onSnd.mp hgives).2
    obtain ⟨info, hinfo, -⟩ := gives_ofExcept_bind.mp hbytes
    cases (hrefused hlong later code hcode.1).symm.trans hinfo

/-- An instruction of one byte loads the first local again and again. -/
def loads (count : Nat) : List Call := List.replicate count (.push (.load .int 0))

theorem loads_succ (count : Nat) : loads (count + 1) = loads count ++ [.push (.load .int 0)] :=
  List.replicate_succ'

section Loads

variable {body : Body} (pool : Pool) {stack : List FieldType}

theorem effect_load (hcurrent : body.current = ⟨0, #[.int], stack⟩) :
    (Instruction.load .int 0).effect pool body.current = .ok ⟨0, #[.int], .int :: stack⟩ := by
  rw [hcurrent]
  rfl

theorem final_loads (hreach : body.reachable = true) (hcode : body.code = #[])
    (hcurrent : body.current = ⟨0, #[.int], []⟩) {count : Nat} (hcount : count < 0x10000) :
    ∃ now stack, Run.final Call.run (loads count) (body, pool) = (now, pool) ∧
      now.reachable = true ∧ now.size = count ∧ now.current = ⟨0, #[.int], stack⟩ ∧
      stack.length = count := by
  induction count with
  | zero => exact ⟨body, [], rfl, hreach, by rw [size, hcode]; rfl, hcurrent, rfl⟩
  | succ count ih =>
    obtain ⟨now, stack, hfinal, hreach, hsize, hcurrent, hlength⟩ := ih (by omega)
    have hfits : Fits ⟨0, #[.int], .int :: stack⟩ :=
      ⟨by rwa [List.length_cons, hlength], Nat.succ_lt_succ (Nat.succ_pos _)⟩
    have hpush := gives_push_of_fits hreach (effect_load pool hcurrent) hfits
    refine ⟨now.grown (.plain (.load .int 0)) ⟨0, #[.int], .int :: stack⟩, .int :: stack, ?_,
      hreach, ?_, rfl, by rw [List.length_cons, hlength]⟩
    · rw [loads_succ, Run.final_append, hfinal]
      exact hpush.2
    · rw [grown_size, hsize]
      rfl

end Loads

/-- The last of 65536 loads finds too many values, when there is one byte for each of them. -/
theorem stack_bounded_loads : ∃ body step,
    start ⟨[.int], none⟩ (.truncate .method 0x0008) "Hi" = .ok body ∧
    step ∈ Run.steps Call.run (loads 65536) (body, .empty) ∧
    (step.outcome Call.run).result = .error (.valueOverflow "max_stack" 65536) ∧
    let now := (Run.final Call.run (loads 65536) (body, .empty)).1
    now.current.stack.length = 65536 ∧ now.bytecode.length = 65536 ∧
    ∀ later written, (lowerAttribute (now, later)).result ≠ .ok written := by
  have hbody : ∃ body, start ⟨[.int], none⟩ (.truncate .method 0x0008) "Hi" = .ok body ∧
      body.reachable = true ∧ body.code = #[] ∧ body.current = ⟨0, #[.int], []⟩ :=
    ⟨_, rfl, rfl, rfl, rfl⟩
  obtain ⟨body, hstart, hreach, hcode, hcurrent⟩ := hbody
  have hcount : 65535 < 0x10000 := by decide
  obtain ⟨full, stack, hfinal, hreach, hsize, hcurrent, hlength⟩ :=
    final_loads .empty hreach hcode hcurrent hcount
  have hmore : (FieldType.int :: stack).length = 65536 := by rw [List.length_cons, hlength]
  have hexceeds : Exceeds ⟨0, #[.int], .int :: stack⟩ (.valueOverflow "max_stack" 65536) :=
    hmore ▸ .stack (Nat.le_of_eq hmore.symm)
  have hfails := fails_push_of_exceeds hreach (effect_load .empty hcurrent) hexceeds
  have hstep : (⟨.push (.load .int 0), (full, .empty)⟩ : Run.Step (Body × Pool) Call) ∈
      Run.steps Call.run (loads 65536) (body, .empty) := by
    rw [loads_succ 65535, Run.steps_append, hfinal]
    exact List.mem_append_right _ (List.mem_singleton_self _)
  have hlast : Run.final Call.run (loads 65536) (body, .empty) =
      ((Call.push (.load .int 0)).run (full, .empty)).state := by
    rw [loads_succ 65535, Run.final_append, hfinal]
    rfl
  refine ⟨body, _, hstart, hstep, hfails.1, ?_, ?_, ?_⟩
  · rw [hlast, hfails.2]
    exact hmore
  · rw [length_bytecode_final hstart, hlast, hfails.2]
    calc _ = (full.grown (.plain (.load .int 0)) full.current).size := size_eq_of_code rfl
      _ = full.size + 1 := full.grown_size _ _
      _ = 65536 := by rw [hsize]
  · intro later written hwritten
    exact (stack_bounded hstart .empty (loads 65536)).2.2.2 later written hwritten _ hstep 65536
      hfails.1

end Body

end Classfile
