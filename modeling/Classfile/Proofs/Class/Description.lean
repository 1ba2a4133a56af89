import Classfile.Class.Lowering
import Classfile.Proofs.Layout.Reading
import Classfile.Proofs.Pool.Denotation

/-!
# Descriptions of classes

What a class file says, with names in place of indices and the bodies of attributes taken apart. A
description is read from the bytes of a class file alone. What a class under construction should be
described as is said apart from it, by the class alone.
-/

namespace Classfile

/-- How the verifier sees a value: as a number or as an instance of a class. -/
inductive SeenType where
  | integer
  | object (name : String)
  deriving DecidableEq

/-- The types at an offset, the stack from bottom to top. -/
structure FrameEntry where
  offset : Nat
  locals : List SeenType
  stack : List SeenType
  deriving DecidableEq

structure CodeEntry where
  maxStack : UInt16
  maxLocals : UInt16
  bytes : List UInt8
  stackMaps : List (List FrameEntry)
  deriving DecidableEq

structure FieldEntry where
  flags : Flags .field
  name : String
  descriptor : String
  /-- Names of the attributes. -/
  attributes : List String
  deriving DecidableEq

structure MethodEntry where
  flags : Flags .method
  name : String
  descriptor : String
  bodies : List CodeEntry
  deriving DecidableEq

structure NestedEntry where
  inner : String
  outer : String
  name : String
  flags : Flags .nested
  deriving DecidableEq

structure Description where
  version : Layout.Version
  flags : Flags .type
  name : String
  parent : String
  interfaces : List String
  fields : List FieldEntry
  methods : List MethodEntry
  nested : List (List NestedEntry)
  deriving DecidableEq

namespace Description

open Reader Emission

/-! ### Lists of parts -/

section Lists

variable {α β γ : Type} {as : List α} {bs : List β} {cs : List γ}

/-- Parts that are resolved one by one. -/
theorem forall₂_of_mapM {f : α → Option β} (h : as.mapM f = some bs) :
    List.Forall₂ (fun a b => f a = some b) as bs := by
  induction as generalizing bs with
  | nil =>
    cases h
    exact .nil
  | cons a rest ih =>
    rw [List.mapM_cons] at h
    simp only [Option.bind_eq_bind, Option.bind_eq_some_iff] at h
    obtain ⟨b, hb, more, hmore, h⟩ := h
    cases h
    exact .cons hb (ih hmore)

/-- Lists that show the same are alike, part by part. -/
theorem forall₂_join {R : α → γ → Prop} {S : β → γ → Prop} (ha : List.Forall₂ R as cs)
    (hb : List.Forall₂ S bs cs) : List.Forall₂ (fun a b => ∃ c, R a c ∧ S b c) as bs := by
  induction ha generalizing bs with
  | nil =>
    cases hb
    exact .nil
  | cons hhead _ ih =>
    cases hb with
    | cons hhead' htail' => exact .cons ⟨_, hhead, hhead'⟩ (ih htail')

end Lists

/-! ### From bytes -/

/-- Offsets from deltas, which count from one after the frame before, and from the start for the
first frame. -/
def placed : Option Nat → List FrameEntry → List FrameEntry
  | _, [] => []
  | previous, entry :: rest =>
    let offset := match previous with
      | none => entry.offset
      | some previous => previous + entry.offset + 1
    { entry with offset } :: placed (some offset) rest

section Resolve

variable (constants : List Constant)

def resolveType : Layout.VerificationType → Option SeenType
  | .integer => some .integer
  | .object type => (classAt? constants type).map .object

/-- The frame with its delta in place of the offset. -/
def resolveFrame (frame : Layout.StackMapFrame) : Option FrameEntry := do
  return ⟨frame.delta.toNat, ← frame.locals.mapM (resolveType constants),
    ← frame.stack.mapM (resolveType constants)⟩

/-- The body of an attribute of the given kind, which takes all bytes of the attribute. -/
def openAttribute {α : Type} (kind : AttributeKind) (reader : Reader α) (a : Layout.Attribute) :
    Option α := do
  if (← textAt? constants a.name) = kind.name then whole reader a.info else none

def resolveStackMap (a : Layout.Attribute) : Option (List FrameEntry) := do
  let frames ← openAttribute constants .stackMapTable (readList Layout.readStackMapFrame) a
  return placed none (← frames.mapM (resolveFrame constants))

def resolveCode (a : Layout.Attribute) : Option CodeEntry := do
  let code ← openAttribute constants .code Layout.readCode a
  return ⟨code.maxStack, code.maxLocals, code.code.bytes,
    ← code.attributes.mapM (resolveStackMap constants)⟩

def resolveField (field : Layout.Field) : Option FieldEntry := do
  let name ← textAt? constants field.name
  let descriptor ← textAt? constants field.descriptor
  return ⟨field.flags, name, descriptor,
    ← field.attributes.mapM fun a => textAt? constants a.name⟩

def resolveMethod (method : Layout.Method) : Option MethodEntry := do
  let name ← textAt? constants method.name
  let descriptor ← textAt? constants method.descriptor
  return ⟨method.flags, name, descriptor, ← method.attributes.mapM (resolveCode constants)⟩

def resolveInnerClass (entry : Layout.InnerClass) : Option NestedEntry := do
  return ⟨← classAt? constants entry.inner, ← classAt? constants entry.outer,
    ← textAt? constants entry.name, entry.flags⟩

def resolveInnerClasses (a : Layout.Attribute) : Option (List NestedEntry) := do
  let entries ← openAttribute constants .innerClasses (readList Layout.readInnerClass) a
  entries.mapM (resolveInnerClass constants)

end Resolve

def resolve (image : Layout.Image) : Option Description := do
  let name ← classAt? image.constants image.this
  let parent ← classAt? image.constants image.parent
  let interfaces ← image.interfaces.mapM (classAt? image.constants)
  let fields ← image.fields.mapM (resolveField image.constants)
  let methods ← image.methods.mapM (resolveMethod image.constants)
  let nested ← image.attributes.mapM (resolveInnerClasses image.constants)
  return ⟨image.version, image.flags, name, parent, interfaces, fields, methods, nested⟩

/-- Reads the bytes of a class file to their end and resolves what they say. -/
def read (bytes : List UInt8) : Option Description := do
  resolve (← whole Layout.readImage bytes)

end Description

/-! ### From classes -/

/-- Some types of two slots and of fractions have no place in a stack map. -/
def FieldType.seen? (type : FieldType) : Option SeenType :=
  match type.base? with
  | some base => if base.isIntLike then some .integer else none
  | none => some (.object type.className)

def Frame.describe? (frame : Frame) : Option FrameEntry := do
  return ⟨frame.offset.toNat, ← frame.locals.toList.mapM FieldType.seen?,
    ← frame.stack.reverse.mapM FieldType.seen?⟩

def Body.describe? (body : Body) : Option CodeEntry := do
  let bytes ← body.assemble.toOption
  let stackMaps ← body.table.toList.mapM fun _ =>
    (StackMap.selected body.frames.toList).mapM Frame.describe?
  return ⟨body.maxStack, body.maxLocals, bytes, stackMaps⟩

def Field.describe (field : Field) : FieldEntry :=
  ⟨field.flags, field.name, field.type.render, []⟩

def Method.describe? (method : Method) : Option MethodEntry := do
  return ⟨method.flags, method.name, method.type.render, ← method.body.toList.mapM Body.describe?⟩

def InnerClasses.describe (list : InnerClasses) : List NestedEntry :=
  list.entries.toList.map fun entry => ⟨entry.fileName, list.outer, entry.name, entry.flags⟩

def Class.describe? (c : Class) : Option Description := do
  return ⟨c.version, c.flags, c.name, c.parent, c.interfaces.toList,
    c.fields.toList.map Field.describe, ← c.methods.toList.mapM Method.describe?,
    c.innerClasses.toList.map InnerClasses.describe⟩

end Classfile
