import Classfile.Proofs.Body.Call

/-!
# A linear verifier

The verifier goes once through the operations of a body and follows the types. It knows the frame at
the entry, the frames recorded at some offsets and the offsets of labels, and takes nothing from
the way in which the body was built. It refuses an operation whose effect is not defined, a recorded
frame that differs from the types falling through to it, an operation that is reached neither from
above nor by a recorded frame, and a jump that does not find its types at its target.
-/

namespace Classfile.Verifier

inductive Rejection where
  | fault (offset : Nat) (fault : Fault)
  | mismatch (offset : Nat)
  | missingFrame (offset : Nat)
  | wrongTarget (offset : Nat) (label : Label)
  deriving DecidableEq

/-- The frame at an offset: the one at the entry, else the last one recorded there. -/
def recorded? (entry : Frame) (frames : List Frame) (offset : Nat) : Option Frame :=
  if offset = 0 then some entry
  else (frames.filter fun frame => frame.offset.toNat = offset).getLast?

/-- The types with which an operation is reached, by falling through or by a recorded frame. -/
def arrive (offset : Nat) : Option Frame → Option Frame → Except Rejection Frame
  | some running, some frame =>
    if running.Agrees frame then .ok frame else .error (.mismatch offset)
  | some running, none => .ok running
  | none, some frame => .ok frame
  | none, none => .error (.missingFrame offset)

theorem arrive_recorded {offset : Nat} {running : Option Frame} {frame here : Frame}
    (h : arrive offset running (some frame) = .ok here) : here = frame := by
  cases running with
  | none => cases h; rfl
  | some running =>
    rw [arrive] at h
    split at h
    · cases h; rfl
    · cases h

theorem arrive_running {offset : Nat} {running here : Frame} {recorded : Option Frame}
    (h : arrive offset (some running) recorded = .ok here) : running.Agrees here := by
  cases recorded with
  | none => cases h; exact Frame.Agrees.refl _
  | some frame =>
    rw [arrive] at h
    split at h
    · next hagrees => cases h; exact hagrees
    · cases h

variable (pool : Pool) (recorded : Nat → Option Frame) (place : Label → Option UInt16)

def interpret (placed : Placed) (frame : Frame) : Except Rejection Frame :=
  match placed.operation.effect pool frame with
  | .ok left => .ok left
  | .error fault => .error (.fault placed.offset fault)

/-- A jump to a label that has a place finds there the types it leaves. -/
def checkTarget (placed : Placed) (left : Frame) : Except Rejection Unit :=
  match placed.operation.target? with
  | none => .ok ()
  | some label =>
    match place label with
    | none => .ok ()
    | some target =>
      match recorded target.toNat with
      | none => .error (.wrongTarget placed.offset label)
      | some frame =>
        if left.Agrees frame then .ok () else .error (.wrongTarget placed.offset label)

def fallsThrough : Operation → Bool
  | .plain _ => true
  | .branch b => !b.isUnconditional

/-- One operation. The running types are absent where nothing falls through. -/
def step (running : Option Frame) (placed : Placed) : Except Rejection (Option Frame) := do
  let frame ← arrive placed.offset running (recorded placed.offset)
  let left ← interpret pool placed frame
  checkTarget recorded place placed left
  return if fallsThrough placed.operation then some left else none

def check (entry : Frame) (body : Body) : Except Rejection (Option Frame) :=
  body.code.toList.foldlM
    (step pool (recorded? entry body.frames.toList) body.labelOffset?) (some entry)

/-! ### Recorded frames -/

section Recorded

variable {entry : Frame} {frames : List Frame} {offset : Nat}

@[simp]
theorem recorded?_zero : recorded? entry frames 0 = some entry := rfl

theorem recorded?_append (hoffset : offset ≠ 0) (frame : Frame) :
    recorded? entry (frames ++ [frame]) offset =
      if frame.offset.toNat = offset then some frame else recorded? entry frames offset := by
  unfold recorded?
  rw [if_neg hoffset, if_neg hoffset, List.filter_append]
  by_cases h : frame.offset.toNat = offset
  · simp [h]
  · simp [h]

theorem recorded?_append_of_ne {frame : Frame} (h : frame.offset.toNat ≠ offset) :
    recorded? entry (frames ++ [frame]) offset = recorded? entry frames offset := by
  by_cases hoffset : offset = 0
  · rw [hoffset, recorded?_zero, recorded?_zero]
  · rw [recorded?_append hoffset, if_neg h]

theorem recorded?_eq_none (hoffset : offset ≠ 0)
    (h : ∀ frame ∈ frames, frame.offset.toNat ≠ offset) : recorded? entry frames offset = none := by
  rw [recorded?, if_neg hoffset, List.getLast?_eq_none_iff, List.filter_eq_nil_iff]
  simpa using h

end Recorded

/-! ### Typings

A typing of a list of operations is what the verifier finds before it looks at the targets of jumps:
the frame that each operation leaves, and the types that run out of the last one. -/

variable {pool} {recorded} {place}

inductive Typing (pool : Pool) (recorded : Nat → Option Frame) (entry : Frame) :
    List Placed → List (Placed × Frame) → Option Frame → Prop where
  | nil : Typing pool recorded entry [] [] (some entry)
  | snoc {code : List Placed} {exits : List (Placed × Frame)} {running : Option Frame}
      {placed : Placed} {frame left : Frame}
      (before : Typing pool recorded entry code exits running)
      (harrive : arrive placed.offset running (recorded placed.offset) = .ok frame)
      (heffect : placed.operation.effect pool frame = .ok left) :
      Typing pool recorded entry (code ++ [placed]) (exits ++ [(placed, left)])
        (if fallsThrough placed.operation then some left else none)

namespace Typing

variable {entry : Frame} {code : List Placed} {exits : List (Placed × Frame)}
  {running : Option Frame}

/-- Only the frames recorded at the operations matter. -/
theorem congr {recorded' : Nat → Option Frame} (h : Typing pool recorded entry code exits running)
    (hsame : ∀ placed ∈ code, recorded' placed.offset = recorded placed.offset) :
    Typing pool recorded' entry code exits running := by
  induction h with
  | nil => exact .nil
  | snoc before harrive heffect ih =>
    refine .snoc (ih fun placed hmem => hsame placed (List.mem_append_left _ hmem)) ?_ heffect
    rw [hsame _ (List.mem_append_right _ (List.mem_singleton_self _))]
    exact harrive

theorem mono {later : Pool} (hgrows : pool.GrowsTo later)
    (h : Typing pool recorded entry code exits running) :
    Typing later recorded entry code exits running := by
  induction h with
  | nil => exact .nil
  | snoc before harrive heffect ih => exact .snoc ih harrive (Operation.effect_mono hgrows heffect)

/-- The verifier accepts what has a typing in which all jumps find their types. -/
theorem foldlM_step (h : Typing pool recorded entry code exits running)
    (htargets : ∀ exit ∈ exits, checkTarget recorded place exit.1 exit.2 = .ok ()) :
    code.foldlM (step pool recorded place) (some entry) = .ok running := by
  induction h with
  | nil => rfl
  | @snoc code exits running placed frame left before harrive heffect ih =>
    have htarget := htargets _ (List.mem_append_right _ (List.mem_singleton_self _))
    have hbefore := ih fun exit hmem => htargets exit (List.mem_append_left _ hmem)
    rw [List.foldlM_append, hbefore]
    simp only [bind, Except.bind, List.foldlM_cons, List.foldlM_nil, step, harrive, interpret,
      heffect, htarget]
    rfl

end Typing

end Classfile.Verifier
