import Classfile.AttributeKind
import Classfile.Instruction.Basic

/-!
# Events

What happens while a class is built, for whoever follows along. Events have a level and a text, and
no operation depends on them.
-/

namespace Classfile

inductive Event where
  | constantAdded (index : Nat) (constant : Constant)
  | verificationClass (type : FieldType) (index : Index .type)
  | frameEncoded (offset delta : UInt16)
  | framesDescend (previous offset : UInt16)
  | labelPlaced (label : Label) (offset : UInt16)
  | operationPushed (offset : Nat) (operation : Operation)
  | attributeAdded (kind : AttributeKind) (parent : ParentKind)
  | fieldAdded (owner name descriptor : String)
  | methodAdded (owner name descriptor : String)
  | codeLowered (bytes jumps : Nat) (maxStack maxLocals : UInt16)
  | classWritten (name : String) (constants fields methods bytes : Nat)
  deriving DecidableEq

inductive Level where
  | error
  | debug
  | trace
  deriving DecidableEq

def Level.name : Level → String
  | error => "ERROR"
  | debug => "DEBUG"
  | trace => "TRACE"

namespace Event

def level : Event → Level
  | constantAdded .. | verificationClass .. | frameEncoded .. | labelPlaced ..
  | operationPushed .. => .trace
  | framesDescend .. => .error
  | attributeAdded .. | fieldAdded .. | methodAdded .. | codeLowered .. | classWritten .. => .debug

/-- Number in at least five places, filled from the left with blanks. -/
def padded (n : Nat) : String :=
  let digits := toString n
  String.ofList (List.replicate (5 - digits.length) ' ') ++ digits

def message : Event → String
  | constantAdded index constant => s!"constant #{index}: {constant.inspect}"
  | verificationClass type index =>
    s!"verification type {type.inspect} is class #{index.inspect}"
  | frameEncoded offset delta => s!"full frame at offset {offset} (delta {delta})"
  | framesDescend previous offset =>
    s!"stack map frame at offset {offset} follows a frame at offset {previous}"
  | labelPlaced label offset => s!"{label.inspect} at offset {offset}"
  | operationPushed offset operation => s!"{padded offset}: {operation.inspect}"
  | attributeAdded kind parent =>
    s!"adding {kind.name} attribute to {parent.inspect}"
  | fieldAdded owner name descriptor => s!"adding field {owner}.{name}:{descriptor}"
  | methodAdded owner name descriptor => s!"adding method {owner}.{name}{descriptor}"
  | codeLowered bytes jumps maxStack maxLocals =>
    s!"lowered code ({bytes} bytes, {jumps} jumps, max_stack {maxStack}, max_locals {maxLocals})"
  | classWritten name constants fields methods bytes =>
    s!"generated class {name} ({constants} constants, {fields} fields, {methods} methods, "
      ++ s!"{bytes} bytes)"

end Event

end Classfile
