import Classfile.Pool

/-!
# Attributes as they are written

An attribute is a name and opaque bytes. The bodies below are those that can be produced; each is
turned into bytes once its name is in the pool.
-/

namespace Classfile.Layout

structure Attribute where
  name : Index .utf8
  info : List UInt8
  deriving DecidableEq

instance : Emit Attribute where
  emit a := emit a.name ++
    Emission.check (fitLength32 "attribute" a.info.length) fun length =>
      emit length ++ Emission.bytes a.info

/-- Instructions are bounded by a length of 16 bits, which is written with 32. -/
structure Bytecode where
  bytes : List UInt8
  deriving DecidableEq

instance : Emit Bytecode where
  emit code := Emission.check (fitLength16 "code" code.bytes.length) fun length =>
    emit length.toUInt32 ++ Emission.bytes code.bytes

structure Code where
  maxStack : UInt16
  maxLocals : UInt16
  code : Bytecode
  attributes : List Attribute
  deriving DecidableEq

/-- The list of exception handlers is empty. -/
instance : Emit Code where
  emit c := emit c.maxStack ++ emit c.maxLocals ++ emit c.code ++ emit (0 : UInt16)
    ++ emit c.attributes

inductive VerificationType where
  | integer
  | object (type : Index .type)
  deriving DecidableEq

instance : Emit VerificationType where
  emit
    | .integer => emit (1 : UInt8)
    | .object type => emit (7 : UInt8) ++ emit type

/-- A frame with all its types. -/
structure StackMapFrame where
  delta : UInt16
  locals : List VerificationType
  stack : List VerificationType
  deriving DecidableEq

instance : Emit StackMapFrame where
  emit frame := emit (255 : UInt8) ++ emit frame.delta ++ emit frame.locals ++ emit frame.stack

structure InnerClass where
  inner : Index .type
  outer : Index .type
  name : Index .utf8
  flags : Flags .nested
  deriving DecidableEq

instance : Emit InnerClass where
  emit c := emit c.inner ++ emit c.outer ++ emit c.name ++ emit c.flags

/-- Body of an attribute, by the kind of the attribute. -/
inductive AttributeBody where
  | code (code : Code)
  | innerClasses (entries : List InnerClass)
  | stackMapTable (frames : List StackMapFrame)
  deriving DecidableEq

namespace AttributeBody

def kind : AttributeBody → AttributeKind
  | code _ => .code
  | innerClasses _ => .innerClasses
  | stackMapTable _ => .stackMapTable

instance : Emit AttributeBody where
  emit
    | code c => emit c
    | innerClasses entries => emit entries
    | stackMapTable frames => emit frames

/-- Names the attribute in the pool first, so that the name stays if the body cannot be written. -/
def toAttribute (body : AttributeBody) : Action Pool Attribute := do
  let name ← Pool.addUtf8 body.kind.name
  let info ← Action.ofExcept (emit body).toBytes
  return ⟨name, info⟩

end AttributeBody

end Classfile.Layout
