import Classfile.Constant
import Classfile.Descriptor.Basic
import Classfile.Label

/-!
# Instructions

The instructions a method body can hold. Branches are apart from the rest, since they refer to
labels and decide whether the next instruction can be reached.
-/

namespace Classfile

/-- What a local variable or a return value holds. -/
inductive Slot where
  | int
  | ref
  deriving DecidableEq

/-- What an array holds. -/
inductive Cell where
  | int
  | ref
  | byte
  deriving DecidableEq

inductive Arith where
  | add
  | sub
  | mul
  | div
  | rem
  | shl
  | shr
  deriving DecidableEq

inductive Dispatch where
  | virtual
  | special
  | static
  deriving DecidableEq

inductive Instruction where
  /-- Pushes one of the numbers from -1 to 5, which is one less than `n`. -/
  | smallInt (n : Fin 7)
  | pushByte (value : Int8)
  | pushShort (value : Int16)
  | loadConstant (constant : Index .any)
  | load (slot : Slot) (index : UInt16)
  | store (slot : Slot) (index : UInt16)
  | loadCell (cell : Cell)
  | storeCell (cell : Cell)
  | pop
  | dup
  | swap
  | arith (op : Arith)
  | negate
  | increment (index : UInt16) (amount : Int16)
  | getStatic (field : Index .fieldRef)
  | putStatic (field : Index .fieldRef)
  | getField (field : Index .fieldRef)
  | putField (field : Index .fieldRef)
  | invoke (dispatch : Dispatch) (method : Index .methodRef)
  | new (type : Index .type)
  | newArray (element : BaseType)
  | newRefArray (element : Index .type)
  | arrayLength
  deriving DecidableEq

inductive Comparison where
  | eq
  | ne
  | lt
  | ge
  | gt
  | le
  deriving DecidableEq

namespace Comparison

def negate : Comparison → Comparison
  | eq => ne
  | ne => eq
  | lt => ge
  | ge => lt
  | gt => le
  | le => gt

def inspect : Comparison → String
  | eq => "EQ"
  | ne => "NE"
  | lt => "LT"
  | ge => "GE"
  | gt => "GT"
  | le => "LE"

end Comparison

/-- References are only compared for being the same. -/
inductive Sameness where
  | eq
  | ne
  deriving DecidableEq

namespace Sameness

def negate : Sameness → Sameness
  | eq => ne
  | ne => eq

def inspect : Sameness → String
  | eq => "EQ"
  | ne => "NE"

end Sameness

inductive Branch where
  /-- Compares an integer with zero. -/
  | ifZero (test : Comparison) (target : Label)
  | ifInts (test : Comparison) (target : Label)
  | ifRefs (test : Sameness) (target : Label)
  | goto (target : Label)
  /-- Leaves the method, with the value on top of the stack or with none. -/
  | leave (value : Option Slot)
  deriving DecidableEq

namespace Branch

def target? : Branch → Option Label
  | ifZero _ target | ifInts _ target | ifRefs _ target | goto target => some target
  | leave _ => none

/-- Control never falls through to the instruction that follows. -/
def isUnconditional : Branch → Bool
  | goto _ | leave _ => true
  | _ => false

end Branch

inductive Operation where
  | plain (instruction : Instruction)
  | branch (branch : Branch)
  deriving DecidableEq

def Operation.target? : Operation → Option Label
  | plain _ => none
  | branch b => b.target?

/-! ## Inspection -/

def Instruction.inspect : Instruction → String
  | smallInt n => if n.val = 0 then "IConstM1" else "IConst" ++ toString (n.val - 1)
  | pushByte value => Inspect.applied "BiPush" [toString value.toInt]
  | pushShort value => Inspect.applied "SiPush" [toString value.toInt]
  | loadConstant constant => Inspect.applied "Ldc" [constant.inspect]
  | load .int i => Inspect.applied "ILoad" [toString i]
  | load .ref i => Inspect.applied "ALoad" [toString i]
  | store .int i => Inspect.applied "IStore" [toString i]
  | store .ref i => Inspect.applied "AStore" [toString i]
  | loadCell .int => "IALoad"
  | loadCell .ref => "AALoad"
  | loadCell .byte => "BALoad"
  | storeCell .int => "IAStore"
  | storeCell .ref => "AAStore"
  | storeCell .byte => "BAStore"
  | pop => "Pop"
  | dup => "Dup"
  | swap => "Swap"
  | arith .add => "IAdd"
  | arith .sub => "ISub"
  | arith .mul => "IMul"
  | arith .div => "IDiv"
  | arith .rem => "IRem"
  | arith .shl => "IShl"
  | arith .shr => "IShr"
  | negate => "INeg"
  | increment i amount => Inspect.applied "IInc" [toString i, toString amount.toInt]
  | getStatic field => Inspect.applied "GetStatic" [field.inspect]
  | putStatic field => Inspect.applied "PutStatic" [field.inspect]
  | getField field => Inspect.applied "GetField" [field.inspect]
  | putField field => Inspect.applied "PutField" [field.inspect]
  | invoke .virtual method => Inspect.applied "InvokeVirtual" [method.inspect]
  | invoke .special method => Inspect.applied "InvokeSpecial" [method.inspect]
  | invoke .static method => Inspect.applied "InvokeStatic" [method.inspect]
  | new type => Inspect.applied "New" [type.inspect]
  | newArray element => Inspect.applied "NewArray" [element.inspect]
  | newRefArray element => Inspect.applied "ANewArray" [element.inspect]
  | arrayLength => "ArrayLength"

def Branch.inspect : Branch → String
  | ifZero test target => Inspect.applied "If" [test.inspect, target.inspect]
  | ifInts test target => Inspect.applied "IfICmp" [test.inspect, target.inspect]
  | ifRefs test target => Inspect.applied "IfACmp" [test.inspect, target.inspect]
  | goto target => Inspect.applied "Goto" [target.inspect]
  | leave (some .int) => "IReturn"
  | leave (some .ref) => "AReturn"
  | leave none => "Return"

def Operation.inspect : Operation → String
  | plain instruction => instruction.inspect
  | branch b => b.inspect

end Classfile
