import Classfile.Layout.Attribute

/-!
# Stack maps

The frames of a body are written as a table in the order of their offsets. The frame at offset 0 is
left out, since it follows from the method's type; of several frames at one offset the last is kept.
An entry gives its offset by the distance from the one before it.
-/

namespace Classfile

/-- How the verifier sees a type. A reference type is named by a class constant. -/
def FieldType.verification (type : FieldType) : Action Pool Layout.VerificationType :=
  match type.base? with
  | some base =>
    if base.isIntLike then pure .integer else Action.fail (.unsupportedVerificationType type)
  | none => do
    let index ← Pool.addClass type.className
    Action.report (.verificationClass type index)
    return .object index

/-- The local variables come before the stack, which goes from bottom to top. -/
def Frame.encode (delta : UInt16) (frame : Frame) : Action Pool Layout.StackMapFrame := do
  let locals ← Action.traverse FieldType.verification frame.locals.toList
  let stack ← Action.traverse FieldType.verification frame.stack.reverse
  return ⟨delta, locals, stack⟩

namespace StackMap

/-- The first frame that comes before the offset of the frame preceding it, as the two offsets. -/
def firstDescent : List Frame → Option (UInt16 × UInt16)
  | a :: b :: rest =>
    if b.offset < a.offset then some (a.offset, b.offset) else firstDescent (b :: rest)
  | _ => none

/-- The last of each run of frames at one offset. -/
def lastOfRuns : List Frame → List Frame
  | a :: b :: rest =>
    if a.offset = b.offset then lastOfRuns (b :: rest) else a :: lastOfRuns (b :: rest)
  | frames => frames

def selected (frames : List Frame) : List Frame :=
  lastOfRuns (frames.filter fun frame => frame.offset != 0)

/-- Each frame with its delta: the whole offset for the first, else one less than the distance. -/
def deltas : Option UInt16 → List Frame → List (UInt16 × Frame)
  | _, [] => []
  | none, frame :: rest => (frame.offset, frame) :: deltas (some frame.offset) rest
  | some previous, frame :: rest =>
    (frame.offset - previous - 1, frame) :: deltas (some frame.offset) rest

/-- Offsets that descend are refused before the pool is touched. -/
def compress (frames : List Frame) : Action Pool (List Layout.StackMapFrame) :=
  match firstDescent frames with
  | some (previous, offset) => do
    Action.report (.framesDescend previous offset)
    Action.fail (.descendingOffset previous offset)
  | none =>
    Action.traverse (fun (delta, frame) => do
      Action.report (.frameEncoded frame.offset delta)
      frame.encode delta) (deltas none (selected frames))

/-- The table as an attribute. -/
def lower (frames : Array Frame) : Action Pool Layout.Attribute := do
  let entries ← compress frames.toList
  (Layout.AttributeBody.stackMapTable entries).toAttribute

end StackMap

end Classfile
