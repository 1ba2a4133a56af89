import Classfile.AttributeKind
import Classfile.Descriptor.Parser
import Classfile.Frame.Basic
import Classfile.Instruction.Basic

/-!
# Errors

Every way in which building or writing a class can fail, each with its cause, and the text that
reports it.
-/

namespace Classfile

inductive Error where
  | poolFull (constant : Constant)
  /-- The writer refused the bytes. -/
  | write (cause : String)
  | lengthOverflow (what : String) (length : Nat)
  | valueOverflow (what : String) (value : Nat)
  | unsupportedAttribute (name : String)
  | illegalAttachment (kind : AttributeKind) (parent : ParentKind)
  | duplicateMember (name descriptor : String)
  | missingMember (name descriptor : String)
  | descendingOffset (previous offset : UInt16)
  | unsupportedVerificationType (type : FieldType)
  | badDescriptor (cause : DescriptorError)
  | zeroDimensionArray
  | invalidOperation (operation : Operation) (fault : Fault)
  | duplicateLabel (label : Label)
  | unplacedLabel (label : Label)
  | incompatibleFrames (label : Label) (found expected : Frame)
  | jumpOverflow (source target : Nat)
  deriving DecidableEq

namespace Error

def message : Error → String
  | poolFull constant => "constant pool is full, cannot add " ++ constant.inspect
  | write cause => "I/O error: " ++ cause
  | lengthOverflow what length =>
    s!"{what} has length {length} which does not fit its length field"
  | valueOverflow what value => s!"{what} is {value} which does not fit its field"
  | unsupportedAttribute name => s!"unsupported attribute '{name}'"
  | illegalAttachment kind parent =>
    s!"attribute '{kind.name}' cannot be attached to a {parent.inspect}"
  | duplicateMember name descriptor => s!"member '{name}:{descriptor}' is already defined"
  | missingMember name descriptor => s!"member '{name}:{descriptor}' is not defined"
  | descendingOffset previous offset =>
    s!"stack map frame at offset {offset} comes after a frame at offset {previous}"
  | unsupportedVerificationType type =>
    s!"type {type.inspect} cannot be encoded in a stack map frame"
  | badDescriptor cause => "malformed descriptor: " ++ cause.message
  | zeroDimensionArray => "array type must have at least one dimension"
  | invalidOperation operation fault =>
    s!"invalid instruction {operation.inspect}: {fault.inspect}"
  | duplicateLabel label => s!"label {label.inspect} is placed twice"
  | unplacedLabel label => s!"label {label.inspect} is never placed"
  | incompatibleFrames label found expected =>
    s!"label {label.inspect} is reached with locals {found.inspectLocals} and stack "
      ++ s!"{found.inspectStack}, but expects locals {expected.inspectLocals} and stack "
      ++ expected.inspectStack
  | jumpOverflow source target => s!"jump from {source} to {target} does not fit in 16 bits"

end Error

/-- A number as a 16-bit word, if it fits. -/
def fitValue (what : String) (value : Nat) : Except Error UInt16 :=
  if value < 0x10000 then .ok (UInt16.ofNat value) else .error (.valueOverflow what value)

/-- A length as a 16-bit word, if it fits. -/
def fitLength16 (what : String) (length : Nat) : Except Error UInt16 :=
  if length < 0x10000 then .ok (UInt16.ofNat length) else .error (.lengthOverflow what length)

/-- A length as a 32-bit word, if it fits. -/
def fitLength32 (what : String) (length : Nat) : Except Error UInt32 :=
  if length < 0x100000000 then .ok (UInt32.ofNat length) else .error (.lengthOverflow what length)

theorem fitValue_eq_ok_iff {what : String} {value : Nat} {word : UInt16} :
    fitValue what value = .ok word ↔ value < 0x10000 ∧ word = UInt16.ofNat value := by
  unfold fitValue
  split
  · next h => simp [h, eq_comm]
  · next h => simp [h]

theorem fitLength16_eq_ok_iff {what : String} {length : Nat} {word : UInt16} :
    fitLength16 what length = .ok word ↔ length < 0x10000 ∧ word = UInt16.ofNat length := by
  unfold fitLength16
  split
  · next h => simp [h, eq_comm]
  · next h => simp [h]

theorem fitLength32_eq_ok_iff {what : String} {length : Nat} {word : UInt32} :
    fitLength32 what length = .ok word ↔ length < 0x100000000 ∧ word = UInt32.ofNat length := by
  unfold fitLength32
  split
  · next h => simp [h, eq_comm]
  · next h => simp [h]

def AttributeKind.ofName (name : String) : Except Error AttributeKind :=
  match ofName? name with
  | some kind => .ok kind
  | none => .error (.unsupportedAttribute name)

/-- An array type with the given number of dimensions, at least one. -/
def FieldType.arrayOf (dims : UInt64) (element : Element) : Except Error FieldType :=
  if dims = 0 then .error .zeroDimensionArray else .ok (.nested (dims - 1) element)

end Classfile
