import Classfile.Frame.Effect
import Classfile.Instruction.Encoding

/-!
# Method bodies

A body grows by one operation at a time. It keeps the frame after the last operation, the frames at
the labels, and the frames that jumps expect at labels not placed yet. All ways to reach a label
must agree on its frame. After a `goto` or a return the next operation is not reached from above,
and gets a frame of its own.
-/

namespace Classfile

/-- An operation and the offset of its first byte. -/
structure Placed where
  offset : Nat
  operation : Operation
  deriving DecidableEq

structure Body where
  maxStack : UInt16
  maxLocals : UInt16
  code : Array Placed
  /-- Frames at the labels that have a place. A frame knows its offset. -/
  labels : Std.TreeMap Label Frame
  /-- Frames that jumps expect at labels without a place. -/
  pending : Std.TreeMap Label Frame
  supply : LabelSupply
  current : Frame
  /-- The next operation can be reached by falling through. -/
  reachable : Bool
  /-- Frames to be written in the stack map. -/
  frames : Array Frame
  /-- The frames handed to the stack map when the body was last lowered, if it has a stack map. -/
  table : Option (Array Frame)

namespace Body

/-- The body of a method before its first operation. -/
def start (type : MethodType) (flags : Flags .method) (owner : String) : Except Error Body := do
  let entry := Frame.entry type flags owner
  let maxLocals ← fitValue "max_locals" entry.locals.size
  return {
    maxStack := 0
    maxLocals
    code := #[]
    labels := ∅
    pending := ∅
    supply := .initial
    current := entry
    reachable := true
    frames := #[entry]
    table := none }

/-- Number of bytes so far, which is the offset of the next operation. -/
def size (body : Body) : Nat :=
  match body.code.back? with
  | none => 0
  | some last => last.offset + last.operation.width

/-- The bytes so far, with 0 for the distance of every jump. -/
def bytecode (body : Body) : List UInt8 :=
  body.code.toList.flatMap fun placed => placed.operation.encode 0

/-- Operations that jump. -/
def jumps (body : Body) : List Placed :=
  body.code.toList.filter fun placed => placed.operation.target?.isSome

def labelOffset? (body : Body) (label : Label) : Option UInt16 :=
  body.labels[label]?.map Frame.offset

/-- Offset of the next operation, as far as a frame can hold it. -/
def nextOffset (body : Body) : Except Error UInt16 := fitValue "code offset" body.size

def freshLabel : Action Body Label := fun body =>
  let (label, supply) := body.supply.fresh
  ⟨.ok label, { body with supply }, []⟩

/-- Two ways to reach a label have the same types. -/
def sameFrame (label : Label) (found expected : Frame) : Except Error Unit :=
  if found.Agrees expected then .ok () else .error (.incompatibleFrames label found expected)

/-- Places a label here with the given types. -/
def placeWith (label : Label) (frame : Frame) : Action Body Unit := do
  if ← Action.gets fun body => body.labels.contains label then
    Action.fail (.duplicateLabel label)
  if ← Action.gets reachable then
    Action.ofExcept (sameFrame label (← Action.gets current) frame)
  if let some expected ← Action.gets fun body => body.pending[label]? then
    Action.ofExcept (sameFrame label frame expected)
  let offset ← Action.ofExcept (← Action.gets nextOffset)
  Action.report (.labelPlaced label offset)
  let frame := frame.placedAt offset
  Action.modify fun body => { body with
    pending := body.pending.erase label
    current := frame
    reachable := true
    frames := body.frames.push frame
    labels := body.labels.insert label frame }

/-- Places a label here. Where nothing falls through, the frame is the one that jumps to the label
expect, if there are any. -/
def place (label : Label) : Action Body Unit := do
  let frame ← Action.gets fun body =>
    match body.pending[label]? with
    | some expected => if body.reachable then body.current else expected
    | none => body.current
  placeWith label frame

/-- Places a label here and starts over from the frame of another label. -/
def placeFrom (label parent : Label) : Action Body Unit := do
  match ← Action.gets fun body => body.labels[parent]? with
  | some frame => placeWith label frame
  | none => Action.fail (.unplacedLabel parent)

/-- An operation that is not reached from above gets a frame. -/
def enter : Action Body Unit := do
  unless ← Action.gets reachable do
    let offset ← Action.ofExcept (← Action.gets nextOffset)
    Action.modify fun body => { body with
      frames := body.frames.push (body.current.placedAt offset)
      reachable := true }

/-- Raises the maxima to the sizes of the current frame, both or none. -/
def raiseMaxima : Action Body Unit := do
  let stack ← Action.gets fun body => body.current.stack.length
  let locals ← Action.gets fun body => body.current.locals.size
  let stack ← Action.ofExcept (fitValue "max_stack" stack)
  let locals ← Action.ofExcept (fitValue "max_locals" locals)
  Action.modify fun body => { body with
    maxStack := max body.maxStack stack
    maxLocals := max body.maxLocals locals }

/-- Appends an operation that leads to the given frame. -/
def append (operation : Operation) (frame : Frame) : Action Body Unit := do
  let offset ← Action.gets size
  Action.modify fun body => { body with
    code := body.code.push ⟨offset, operation⟩
    current := frame }
  raiseMaxima
  Action.report (.operationPushed offset operation)

/-- The outcome of an operation on the current frame. -/
def interpret (operation : Operation) (effect : Frame → Except Fault Frame) :
    Action Body Frame := do
  match effect (← Action.gets current) with
  | .ok frame => return frame
  | .error fault => Action.fail (.invalidOperation operation fault)

def push (pool : Pool) (instruction : Instruction) : Action Body Unit := do
  let frame ← interpret (.plain instruction) (instruction.effect pool)
  enter
  append (.plain instruction) frame

/-- Notes the frame with which a jump reaches its target. -/
def expectFrame (target : Label) (frame : Frame) : Action Body Unit := do
  match ← Action.gets fun body => body.labels[target]? with
  | some placed => Action.ofExcept (sameFrame target frame placed)
  | none =>
    match ← Action.gets fun body => body.pending[target]? with
    | some expected => Action.ofExcept (sameFrame target frame expected)
    | none => Action.modify fun body => { body with pending := body.pending.insert target frame }

def pushBranch (branch : Branch) : Action Body Unit := do
  let frame ← interpret (.branch branch) branch.effect
  if let some target := branch.target? then
    expectFrame target frame
  enter
  append (.branch branch) frame
  if branch.isUnconditional then
    Action.modify fun body => { body with reachable := false }

/-- Adds a local variable and returns its index. -/
def allocLocal (type : FieldType) : Action Body UInt16 := do
  let index ← Action.ofExcept (fitValue "local variable index"
    (← Action.gets fun body => body.current.locals.size))
  Action.modify fun body => { body with
    current := { body.current with locals := body.current.locals.push type } }
  raiseMaxima
  return index

end Body

end Classfile
