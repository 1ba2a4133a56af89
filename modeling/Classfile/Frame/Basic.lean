import Classfile.AccessFlags
import Classfile.Constant
import Classfile.Descriptor.Basic

/-!
# Frames

A frame holds the types of the local variables and of the operand stack at one offset of a method
body. Every value takes one slot. The stack is listed from its top.
-/

namespace Classfile

/-- Why a frame cannot describe the effect of an instruction. -/
inductive Fault where
  | emptyStack
  | invalidLocal (i : UInt16)
  | notArray
  | missingConstant (constant : Index .any)
  | notLoadable (constant : Index .any)
  | invalidDescriptor (constant : Index .any)
  deriving DecidableEq

def Fault.inspect : Fault → String
  | emptyStack => "EmptyStack"
  | invalidLocal i => Inspect.applied "InvalidIndex" [toString i]
  | notArray => "NotArrayType"
  | missingConstant constant => Inspect.applied "MissingConstant" [constant.inspect]
  | notLoadable constant => Inspect.applied "NotLoadableConstant" [constant.inspect]
  | invalidDescriptor constant => Inspect.applied "InvalidDescriptor" [constant.inspect]

structure Frame where
  offset : UInt16
  locals : Array FieldType
  stack : List FieldType
  deriving DecidableEq

namespace Frame

/-- Frame at the start of a method: the receiver if there is one, then the parameters. -/
def entry (type : MethodType) (flags : Flags .method) (owner : String) : Frame :=
  let receiver := if flags.isStatic then [] else [FieldType.object owner]
  ⟨0, (receiver ++ type.parameters).toArray, []⟩

def placedAt (frame : Frame) (offset : UInt16) : Frame := { frame with offset }

/-- Same types, wherever the two frames stand. -/
def Agrees (a b : Frame) : Prop := a.locals = b.locals ∧ a.stack = b.stack

instance (a b : Frame) : Decidable (a.Agrees b) := inferInstanceAs (Decidable (_ ∧ _))

def localType (frame : Frame) (i : UInt16) : Except Fault FieldType :=
  match frame.locals[i.toNat]? with
  | some type => .ok type
  | none => .error (.invalidLocal i)

/-- Local variables stay without gap: the index is in use or the next one. -/
def setLocal (frame : Frame) (i : UInt16) (type : FieldType) : Except Fault Frame :=
  if i.toNat < frame.locals.size then
    .ok { frame with locals := frame.locals.setIfInBounds i.toNat type }
  else if i.toNat = frame.locals.size then
    .ok { frame with locals := frame.locals.push type }
  else .error (.invalidLocal i)

def push (frame : Frame) (type : FieldType) : Frame := { frame with stack := type :: frame.stack }

def pop (frame : Frame) : Except Fault (FieldType × Frame) :=
  match frame.stack with
  | [] => .error .emptyStack
  | type :: stack => .ok (type, { frame with stack })

/-- Drops a number of values, or none if there are fewer. -/
def popMany (frame : Frame) (count : Nat) : Except Fault Frame :=
  if count ≤ frame.stack.length then .ok { frame with stack := frame.stack.drop count }
  else .error .emptyStack

def peek (frame : Frame) : Except Fault FieldType :=
  match frame.stack with
  | [] => .error .emptyStack
  | type :: _ => .ok type

def clear (frame : Frame) : Frame := { frame with stack := [] }

def inspectLocals (frame : Frame) : String :=
  Inspect.listed (frame.locals.toList.map FieldType.inspect)

/-- From the bottom of the stack to its top. -/
def inspectStack (frame : Frame) : String :=
  Inspect.listed (frame.stack.reverse.map FieldType.inspect)

def inspect (frame : Frame) : String :=
  Inspect.record "Frame" [("code_offset", toString frame.offset),
    ("locals", frame.inspectLocals), ("stack", frame.inspectStack)]

end Frame

end Classfile
