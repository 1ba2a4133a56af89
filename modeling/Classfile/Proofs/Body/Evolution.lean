import Classfile.Proofs.Body.Call

/-!
# Every outcome of a call

A call is refused before it changes anything, or it runs into a limit after a part of its work was
done. Here is said once what is there then, and what a call can do to the operations, the frames and
the labels of a body, whatever comes of it.
-/

namespace Classfile.Body

open Classfile.Action

/-- What a call can do to a body, accepted or not. An accepted call may have placed a label. -/
inductive Evolves (body : Body) (placed : Option Label) (next : Body) : Prop where
  | keep (target : Option Label) (frame : Frame)
      (hnext : (body.expecting target frame).Resembles next)
  | mark {label : Label} {frame : Frame} (hplaced : placed = some label)
      (hfresh : body.labels[label]? = none) (hoffset : frame.offset.toNat = body.size)
      (hnext : (body.marked label frame).Resembles next)
  | grow (operation : Operation) (frame : Frame)
      (hroom : body.reachable = false → body.size < 0x10000)
      (hnext : ((body.expecting operation.target? frame).entered.grown operation frame).Resembles
        next)

variable {body next : Body} {pool : Pool} {e : Error} {placed : Option Label}

theorem Evolves.of_resembles (h : body.Resembles next) : Evolves body placed next :=
  .keep none body.current h

theorem Advance.evolves {call : Call} (h : body.Advance pool call next) :
    Evolves body call.label? next := by
  cases h with
  | @push instruction frame heffect hroom hfits =>
    exact .grow (.plain instruction) frame hroom ⟨rfl, rfl, rfl, rfl⟩
  | @branch b frame heffect hadmits hroom hfits =>
    exact .grow (.branch b) frame hroom ⟨rfl, rfl, rfl, rfl⟩
  | @mark _ label frame hcall horigin hfresh hfall hpending hroom =>
    have hlabel : call.label? = some label := by
      obtain rfl | ⟨parent, rfl⟩ := hcall <;> rfl
    exact .mark hlabel hfresh (toNat_ofNat_size hroom) (.refl _)
  | freshLabel => exact .of_resembles ⟨rfl, rfl, rfl, rfl⟩
  | allocLocal => exact .of_resembles ⟨rfl, rfl, rfl, rfl⟩
  | addStackMap => exact .of_resembles ⟨rfl, rfl, rfl, rfl⟩
  | addConstant => exact .of_resembles (.refl _)

/-! ### Limits -/

/-- What a call has done to a body when it runs into a limit. -/
inductive Overrun (body : Body) (pool : Pool) : Call → Error → Body → Prop where
  /-- A label has no offset. -/
  | label {call : Call} {label : Label} (hcall : call.label? = some label)
      (hsize : 0x10000 ≤ body.size) :
      Overrun body pool call (.valueOverflow "code offset" body.size) body
  /-- An operation that needs a frame has no offset. If it jumps, its frame is at its label. -/
  | offset {call : Call} {operation : Operation} {frame : Frame}
      (hcall : call.operation? = some operation)
      (heffect : operation.effect pool body.current = .ok frame)
      (hreach : body.reachable = false) (hsize : 0x10000 ≤ body.size) :
      Overrun body pool call (.valueOverflow "code offset" body.size)
        (body.expecting operation.target? frame)
  /-- An operation leads to a frame that is too large. It is there, and its frame is current. -/
  | append {call : Call} {operation : Operation} {frame : Frame} {e : Error}
      (hcall : call.operation? = some operation)
      (heffect : operation.effect pool body.current = .ok frame)
      (hroom : body.reachable = false → body.size < 0x10000) (hexceeds : Exceeds frame e) :
      Overrun body pool call e { (body.expecting operation.target? frame).entered with
        code := body.code.push ⟨body.size, operation⟩
        current := frame }
  | index {type : FieldType} (hsize : 0x10000 ≤ body.current.locals.size) :
      Overrun body pool (.allocLocal type)
        (.valueOverflow "local variable index" body.current.locals.size) body
  /-- There is a local too much with the new one. It is there. -/
  | allocLocal {type : FieldType} {e : Error}
      (hexceeds : Exceeds (body.withLocal type).current e) :
      Overrun body pool (.allocLocal type) e
        { body with current := (body.withLocal type).current }

/-- The call is refused before it does anything, or it runs into a limit. -/
def Stopped (body : Body) (pool : Pool) (call : Call) (e : Error) (next : Body) : Prop :=
  (¬ e.isValueOverflow ∧ next = body) ∨ Overrun body pool call e next

theorem Overrun.isValueOverflow {call : Call} (h : Overrun body pool call e next) :
    e.isValueOverflow := by
  have hexceeds : ∀ {frame : Frame}, Exceeds frame e → e.isValueOverflow := by
    rintro frame (_ | _)
    · rfl
    · rfl
  cases h with
  | append _ _ _ h => exact hexceeds h
  | allocLocal h => exact hexceeds h
  | _ => rfl

theorem Overrun.evolves {call : Call} (h : Overrun body pool call e next) :
    Evolves body none next := by
  cases h with
  | label => exact .of_resembles (.refl body)
  | offset => exact .keep _ _ (.refl _)
  | @append _ operation frame _ hcall heffect hroom =>
    refine .grow operation frame hroom ⟨?_, rfl, rfl, rfl⟩
    simp [grown, raised]
  | index => exact .of_resembles (.refl body)
  | allocLocal => exact .of_resembles ⟨rfl, rfl, rfl, rfl⟩

section Stopped

variable {call : Call}

/-- What is left of a call once the frame after its operation is known. -/
theorem overrun_enter {operation : Operation} {frame : Frame} {rest : Action Body Unit}
    (hcall : call.operation? = some operation)
    (heffect : operation.effect pool body.current = .ok frame)
    (hrest : ∀ mid, Fails rest mid e next → Fails (append operation frame) mid e next)
    (h : Fails (do enter; rest) (body.expecting operation.target? frame) e next) :
    Overrun body pool call e next := by
  rw [fails_bind] at h
  obtain h | ⟨_, mid, henter, h⟩ := h
  · obtain ⟨⟨hreach, hsize, rfl⟩, rfl⟩ := fails_enter_iff.mp h
    rw [expecting_reachable] at hreach
    rw [expecting_size] at hsize ⊢
    exact .offset hcall heffect hreach hsize
  · obtain ⟨rfl, hroom⟩ := gives_enter henter
    obtain ⟨hexceeds, rfl⟩ := fails_append_iff.mp (hrest _ h)
    rw [expecting_reachable, expecting_size] at hroom
    rw [entered_code, entered_size, expecting_code, expecting_size]
    exact .append hcall heffect hroom hexceeds

theorem stopped_push {instruction : Instruction} (h : Fails (push pool instruction) body e next) :
    Stopped body pool (.push instruction) e next := by
  rw [push, fails_bind] at h
  obtain h | ⟨frame, _, hinterpret, h⟩ := h
  · obtain ⟨_, -, rfl, rfl⟩ := fails_interpret_iff.mp h
    exact .inl ⟨Bool.false_ne_true, rfl⟩
  · obtain ⟨heffect, rfl⟩ := gives_interpret hinterpret
    exact .inr (overrun_enter rfl heffect (fun _ h => h) h)

theorem stopped_pushBranch {b : Branch} (h : Fails (pushBranch b) body e next) :
    Stopped body pool (.branch b) e next := by
  rw [pushBranch, fails_bind] at h
  obtain h | ⟨frame, _, hinterpret, h⟩ := h
  · obtain ⟨_, -, rfl, rfl⟩ := fails_interpret_iff.mp h
    exact .inl ⟨Bool.false_ne_true, rfl⟩
  · obtain ⟨heffect, rfl⟩ := gives_interpret hinterpret
    have hend : ∀ mid, Fails (do
        append (.branch b) frame
        if b.isUnconditional then
          Action.modify fun body => { body with reachable := false }) mid e next →
        Fails (append (.branch b) frame) mid e next := by
      intro mid h
      rw [fails_bind] at h
      obtain h | ⟨_, _, -, h⟩ := h
      · exact h
      · split at h <;> simp at h
    cases htarget : b.target? with
    | none =>
      simp only [htarget] at h
      refine .inr (overrun_enter rfl heffect hend ?_)
      rwa [Operation.target?, htarget]
    | some target =>
      simp only [htarget] at h
      rw [fails_bind] at h
      obtain h | ⟨_, _, hexpect, h⟩ := h
      · obtain ⟨⟨_, -, -, rfl⟩, rfl⟩ := fails_expectFrame_iff.mp h
        exact .inl ⟨Bool.false_ne_true, rfl⟩
      · obtain ⟨-, rfl⟩ := gives_expectFrame hexpect
        refine .inr (overrun_enter rfl heffect hend ?_)
        rwa [Operation.target?, htarget]

theorem stopped_placeWith {label : Label} {frame : Frame} (hcall : call.label? = some label)
    (h : Fails (placeWith label frame) body e next) : Stopped body pool call e next := by
  obtain ⟨hmisplaced, rfl⟩ := fails_placeWith_iff.mp h
  cases hmisplaced with
  | offset hfresh hfall hpending hsize => exact .inr (.label hcall hsize)
  | _ => exact .inl ⟨Bool.false_ne_true, rfl⟩

theorem stopped_allocLocal {type : FieldType} (h : Fails (allocLocal type) body e next) :
    Stopped body pool (.allocLocal type) e next := by
  obtain ⟨hsize, rfl, rfl⟩ | ⟨-, hexceeds, rfl⟩ := fails_allocLocal_iff.mp h
  · exact .inr (.index hsize)
  · exact .inr (.allocLocal hexceeds)

theorem stopped_of_fails {next : Body × Pool} (h : Fails call.run (body, pool) e next)
    (hcall : ∀ addition, call ≠ .addConstant addition) : Stopped body pool call e next.1 := by
  cases call with
  | push instruction => exact stopped_push (fails_onFstWith.mp (fails_bind_pure.mp h)).1
  | branch b => exact stopped_pushBranch (fails_onFst.mp (fails_bind_pure.mp h)).1
  | place label =>
    have h := (fails_onFst.mp (fails_bind_pure.mp h)).1
    rw [Body.place, fails_gets_bind] at h
    exact stopped_placeWith rfl h
  | placeFrom label parent =>
    have h := (fails_onFst.mp (fails_bind_pure.mp h)).1
    rw [Body.placeFrom, fails_gets_bind] at h
    split at h
    · exact stopped_placeWith rfl h
    · obtain ⟨rfl, hnext⟩ := fails_fail.mp h
      exact .inl ⟨Bool.false_ne_true, hnext.symm⟩
  | freshLabel =>
    have h := (fails_onFst.mp (fails_bind_pure.mp h)).1
    cases h.1
  | allocLocal type => exact stopped_allocLocal (fails_onFst.mp (fails_bind_pure.mp h)).1
  | addStackMap => exact absurd (fails_onFst.mp (fails_bind_pure.mp h)).1 fails_attachStackMap
  | addConstant addition => exact absurd rfl (hcall addition)

end Stopped

/-! ### Refused calls -/

/-- The body is left alone, or an overflow comes after a part of the work. -/
def Refused (body : Body) (e : Error) (next : Body) : Prop :=
  next = body ∨ e.isValueOverflow ∧ Evolves body none next

theorem refused_of_fails {call : Call} {next : Body × Pool}
    (h : Fails call.run (body, pool) e next) : body.Refused e next.1 := by
  by_cases hcall : ∃ addition, call = .addConstant addition
  · obtain ⟨addition, rfl⟩ := hcall
    exact .inl (fails_onSnd.mp (fails_bind_pure.mp h)).1.symm
  · obtain ⟨-, hsame⟩ | hoverrun := stopped_of_fails h (not_exists.mp hcall)
    · exact .inl hsame
    · exact .inr ⟨hoverrun.isValueOverflow, hoverrun.evolves⟩

/-- A call refused for anything but an overflow leaves the body alone. -/
theorem unchanged_of_fails {call : Call} {next : Body × Pool}
    (h : Fails call.run (body, pool) e next) (hfits : ¬ e.isValueOverflow) : next.1 = body :=
  (refused_of_fails h).resolve_right fun hoverflow => hfits hoverflow.1

theorem evolves_of_fails {call : Call} {next : Body × Pool}
    (h : Fails call.run (body, pool) e next) : Evolves body none next.1 := by
  obtain hsame | ⟨-, hevolves⟩ := refused_of_fails h
  · rw [hsame]
    exact .of_resembles (.refl body)
  · exact hevolves

/-! ### Steps -/

def overflows (step : Run.Step (Body × Pool) Call) : Bool :=
  match (step.outcome Call.run).result with
  | .ok _ => false
  | .error e => e.isValueOverflow

theorem advance_of_accepted {step : Run.Step (Body × Pool) Call} (h : step.Accepted Call.run) :
    step.before.1.Advance step.before.2 step.call (step.after Call.run).1 := by
  obtain ⟨reply, hreply⟩ := h
  exact advance_of_gives ⟨hreply, rfl⟩

theorem unchanged_of_refused {step : Run.Step (Body × Pool) Call}
    (hrefused : ¬ step.Accepted Call.run) (hfits : ¬ overflows step) :
    (step.after Call.run).1 = step.before.1 := by
  obtain ⟨reply, h⟩ | ⟨e, h⟩ := gives_or_fails step.call.run step.before
  · exact absurd ⟨reply, h.1⟩ hrefused
  · exact unchanged_of_fails h (by simpa [overflows, Run.Step.outcome, h.1] using hfits)

/-- Without an overflow, a step advances the body or leaves it alone. -/
theorem advance_or_unchanged (step : Run.Step (Body × Pool) Call) (hfits : ¬ overflows step) :
    step.before.1.Advance step.before.2 step.call (step.after Call.run).1 ∨
      (step.after Call.run).1 = step.before.1 := by
  by_cases haccepted : step.Accepted Call.run
  · exact .inl (advance_of_accepted haccepted)
  · exact .inr (unchanged_of_refused haccepted hfits)

end Classfile.Body
