import Classfile.Pool

/-!
# Effects of instructions on frames

Types are followed and not checked: an instruction is refused only if the frame cannot describe its
effect, as when it takes a value from an empty stack.
-/

namespace Classfile

variable {kind : IndexKind}

/-- Reads the descriptor that a constant stands for. -/
def Pool.read {α : Type} (parse : String → Except DescriptorError α) (pool : Pool)
    (index : Index kind) : Except Fault α :=
  match pool.descriptor? index with
  | none => .error (.missingConstant index.untyped)
  | some descriptor =>
    match parse descriptor with
    | .ok value => .ok value
    | .error _ => .error (.invalidDescriptor index.untyped)

def Pool.fieldType (pool : Pool) (index : Index kind) : Except Fault FieldType :=
  pool.read FieldType.parse index

def Pool.methodType (pool : Pool) (index : Index kind) : Except Fault MethodType :=
  pool.read MethodType.parse index

/-- Type of the value that a constant loads as. -/
def Pool.loadedType (pool : Pool) (index : Index .any) : Except Fault FieldType :=
  match pool.constant? index with
  | some (.integer _) => .ok .int
  | some (.string _) => .ok .string
  | some (.type _) => .ok (.object "java/lang/Class")
  | some _ => .error (.notLoadable index)
  | none => .error (.missingConstant index)

namespace Frame

/-- Takes an array from the stack and returns what its elements are. -/
def popArray (frame : Frame) : Except Fault (FieldType × Frame) := do
  let (array, frame) ← frame.pop
  match array.component? with
  | some component => .ok (component, frame)
  | none => .error .notArray

def pushResult (frame : Frame) : Option FieldType → Frame
  | none => frame
  | some type => frame.push type

end Frame

/-- Values that a call takes besides its arguments. -/
def Dispatch.receivers : Dispatch → Nat
  | virtual | special => 1
  | static => 0

def Instruction.effect (pool : Pool) (frame : Frame) : Instruction → Except Fault Frame
  | smallInt _ | pushByte _ | pushShort _ => return frame.push .int
  | loadConstant constant => return frame.push (← pool.loadedType constant)
  | load .int i => do
    let _ ← frame.localType i
    return frame.push .int
  | load .ref i => return frame.push (← frame.localType i)
  | store _ i => do
    let (type, frame) ← frame.pop
    frame.setLocal i type
  | loadCell .ref => do
    let (_, frame) ← frame.pop
    let (component, frame) ← frame.popArray
    return frame.push component
  | loadCell _ => do
    let (_, frame) ← frame.pop
    let (_, frame) ← frame.popArray
    return frame.push .int
  | storeCell _ => frame.popMany 3
  | pop => return (← frame.pop).2
  | dup => return frame.push (← frame.peek)
  | swap => do
    let (top, frame) ← frame.pop
    let (below, frame) ← frame.pop
    return (frame.push top).push below
  | arith _ => return (← frame.popMany 2).push .int
  | negate => return (← frame.pop).2.push .int
  | increment i _ => do
    let _ ← frame.localType i
    return frame
  | getStatic field => return frame.push (← pool.fieldType field)
  | putStatic _ => return (← frame.pop).2
  | getField field => do
    let type ← pool.fieldType field
    return (← frame.pop).2.push type
  | putField _ => frame.popMany 2
  | invoke dispatch method => do
    let type ← pool.methodType method
    return (← frame.popMany (type.parameters.length + dispatch.receivers)).pushResult type.result
  | new type => return frame.push (← pool.fieldType type)
  | newArray element => return (← frame.pop).2.push (FieldType.base element).array
  | newRefArray element => do
    let type ← pool.fieldType element
    return (← frame.pop).2.push type.array
  | arrayLength => return (← frame.popArray).2.push .int

/-- Leaving a method empties the stack. -/
def Branch.effect (frame : Frame) : Branch → Except Fault Frame
  | ifZero _ _ => return (← frame.pop).2
  | ifInts _ _ | ifRefs _ _ => frame.popMany 2
  | goto _ => return frame
  | leave (some _) => return (← frame.pop).2.clear
  | leave none => return frame.clear

end Classfile
