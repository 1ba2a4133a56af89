import Classfile.Layout.ClassFile
import Classfile.Proofs.Text.Modified

/-!
# Reading class files

For every value with a form in a class file, a reader of that form. What is written without an error
is read back. The constants are read into a list, in which indices are looked up.
-/

namespace Classfile

open Reader

namespace Emission

variable {α β : Type}

/-- If all of it is written, the bytes are read as the value. -/
def Restores (reader : Reader α) (e : Emission) (a : α) : Prop :=
  e.stop = none → Reads reader e.written a

theorem append_eq (a b : Emission) : a ++ b = a.append b := rfl

theorem append_assoc (a b c : Emission) : a ++ b ++ c = a ++ (b ++ c) := by
  simp only [append_eq, append]
  cases ha : a.stop <;> cases hb : b.stop <;> simp_all

theorem stop_append {a b : Emission} : (a ++ b).stop = none ↔ a.stop = none ∧ b.stop = none := by
  rw [append_eq, append]
  cases h : a.stop <;> simp [h]

theorem stop_append_of_some {a b : Emission} {e : Error} (h : a.stop = some e) :
    (a ++ b).stop = some e := by
  rw [append_eq, append, h]
  exact h

theorem stop_append_of_none {a b : Emission} (h : a.stop = none) : (a ++ b).stop = b.stop := by
  rw [append_eq, append, h]

theorem written_append {a b : Emission} (h : a.stop = none) :
    (a ++ b).written = a.written ++ b.written := by
  rw [append_eq, append]
  simp [h, written]

theorem restores_bytes {reader : Reader α} {chunk : List UInt8} {a : α} (h : Reads reader chunk a) :
    Restores reader (bytes chunk) a := by
  intro _
  simpa [written, bytes] using h

theorem Restores.bind {x : Reader α} {f : α → Reader β} {first second : Emission} {a : α} {b : β}
    (hx : Restores x first a) (hf : Restores (f a) second b) :
    Restores (x >>= f) (first ++ second) b := by
  intro hstop
  obtain ⟨hfirst, hsecond⟩ := stop_append.mp hstop
  rw [written_append hfirst]
  exact (hx hfirst).bind (hf hsecond)

theorem Restores.bind_nil {x : Reader α} {f : α → Reader β} {e : Emission} {a : α} {b : β}
    (hx : Restores x e a) (hf : Reads (f a) [] b) : Restores (x >>= f) e b :=
  fun hstop => (hx hstop).bind_nil hf

theorem Restores.bind_pure {x : Reader α} {f : α → β} {e : Emission} {a : α} (hx : Restores x e a) :
    Restores (x >>= fun a => pure (f a)) e (f a) :=
  hx.bind_nil (reads_pure (f a))

/-- A value that was checked goes on with what it was found to be. -/
theorem restores_check {reader : Reader α} {value : Except Error β} {next : β → Emission} {a : α}
    (h : ∀ b, value = .ok b → Restores reader (next b) a) :
    Restores reader (check value next) a := by
  cases value with
  | ok b => exact h b rfl
  | error e => exact fun hstop => by cases hstop

theorem restores_u8 (byte : UInt8) : Restores u8 (emit byte) byte := restores_bytes (reads_u8 byte)

theorem restores_u16 (word : UInt16) : Restores u16 (emit word) word :=
  restores_bytes (reads_u16 word)

theorem restores_u32 (word : UInt32) : Restores u32 (emit word) word :=
  restores_bytes (reads_u32 word)

theorem toNat_of_fitLength16 {what : String} {length : Nat} {word : UInt16}
    (h : fitLength16 what length = .ok word) : word.toNat = length := by
  obtain ⟨hlt, rfl⟩ := fitLength16_eq_ok_iff.mp h
  exact UInt16.toNat_ofNat_of_lt' hlt

theorem toNat_of_fitLength32 {what : String} {length : Nat} {word : UInt32}
    (h : fitLength32 what length = .ok word) : word.toNat = length := by
  obtain ⟨hlt, rfl⟩ := fitLength32_eq_ok_iff.mp h
  exact UInt32.toNat_ofNat_of_lt' hlt

theorem restores_concat [Emit α] {reader : Reader α} {items : List α}
    (h : ∀ a ∈ items, Restores reader (emit a) a) :
    Restores (many reader items.length) (concat (items.map emit)) items := by
  induction items with
  | nil => exact fun _ => reads_pure []
  | cons a rest ih =>
    rw [List.forall_mem_cons] at h
    exact h.1.bind (ih h.2).bind_pure

/-- A sequence is preceded by its length. -/
def readList (reader : Reader α) : Reader (List α) := do many reader (← u16).toNat

theorem restores_list [Emit α] {reader : Reader α} (h : ∀ a, Restores reader (emit a) a)
    (items : List α) : Restores (readList reader) (emit items) items := by
  refine restores_check fun length hlength => ?_
  refine (restores_u16 _).bind ?_
  rw [toNat_of_fitLength16 hlength]
  exact restores_concat fun a _ => h a

end Emission

namespace Layout

open Emission

variable {kind : IndexKind} {owner : FlagOwner}

/-! ### Constants -/

def readIndex : Reader (Index kind) := do return ⟨← u16⟩

def readFlags : Reader (Flags owner) := do
  let some flags := Flags.ofBits? owner (← u16) | failure
  return flags

def readText : Reader String := do
  let some text := Text.Modified.decode (← take (← u16).toNat) | failure
  return text

def readConstant : Reader Constant := do
  match ← u8 with
  | 1 => return .utf8 (← readText)
  | 3 => return .integer (← u32).toInt32
  | 7 => return .type (← readIndex)
  | 8 => return .string (← readIndex)
  | 9 => return .fieldRef (← readIndex) (← readIndex)
  | 10 => return .methodRef (← readIndex) (← readIndex)
  | 12 => return .nameAndType (← readIndex) (← readIndex)
  | _ => failure

theorem restores_readIndex (index : Index kind) : Restores readIndex (emit index) index :=
  (restores_u16 index.val).bind_pure

theorem restores_readFlags (flags : Flags owner) : Restores readFlags (emit flags) flags := by
  refine (restores_u16 flags.bits).bind_nil ?_
  rw [Flags.ofBits?, dif_pos flags.known]
  exact reads_pure flags

theorem restores_readText (text : String) :
    Restores readText (check (fitLength16 "utf8 constant" (Text.Modified.encode text).length)
      fun length => emit length ++ bytes (Text.Modified.encode text)) text := by
  refine restores_check fun length hlength => (restores_u16 length).bind ?_
  rw [toNat_of_fitLength16 hlength]
  refine restores_bytes ((reads_take _).bind_nil ?_)
  rw [Text.Modified.decode_encode]
  exact reads_pure text

theorem restores_readConstant (constant : Constant) :
    Restores readConstant (emit constant) constant := by
  cases constant with
  | utf8 text => exact (restores_u8 1).bind (restores_readText text).bind_pure
  | integer value =>
    have h := (restores_u32 value.toUInt32).bind_pure
      (f := fun word => Constant.integer word.toInt32)
    rw [Int32.toInt32_toUInt32] at h
    exact (restores_u8 3).bind h
  | type name => exact (restores_u8 7).bind (restores_readIndex name).bind_pure
  | string text => exact (restores_u8 8).bind (restores_readIndex text).bind_pure
  | fieldRef owner member =>
    exact (restores_u8 9).bind
      ((restores_readIndex owner).bind (restores_readIndex member).bind_pure)
  | methodRef owner member =>
    exact (restores_u8 10).bind
      ((restores_readIndex owner).bind (restores_readIndex member).bind_pure)
  | nameAndType name descriptor =>
    exact (restores_u8 12).bind
      ((restores_readIndex name).bind (restores_readIndex descriptor).bind_pure)

/-! ### Attributes -/

def readAttribute : Reader Attribute := do
  let name ← readIndex
  return ⟨name, ← take (← u32).toNat⟩

def readBytecode : Reader Bytecode := do return ⟨← take (← u32).toNat⟩

/-- There must be no exception handlers. -/
def readCode : Reader Code := do
  let maxStack ← u16
  let maxLocals ← u16
  let code ← readBytecode
  let handlers ← u16
  if handlers ≠ 0 then failure
  return ⟨maxStack, maxLocals, code, ← readList readAttribute⟩

def readVerificationType : Reader VerificationType := do
  match ← u8 with
  | 1 => return .integer
  | 7 => return .object (← readIndex)
  | _ => failure

/-- Only frames with all their types are read. -/
def readStackMapFrame : Reader StackMapFrame := do
  let kind ← u8
  if kind ≠ 255 then failure
  return ⟨← u16, ← readList readVerificationType, ← readList readVerificationType⟩

def readInnerClass : Reader InnerClass := do
  return ⟨← readIndex, ← readIndex, ← readIndex, ← readFlags⟩

theorem restores_readAttribute (a : Attribute) : Restores readAttribute (emit a) a := by
  refine (restores_readIndex a.name).bind (restores_check fun length hlength => ?_)
  refine (restores_u32 length).bind ?_
  rw [toNat_of_fitLength32 hlength]
  exact restores_bytes (reads_take a.info).bind_pure

theorem restores_readBytecode (code : Bytecode) : Restores readBytecode (emit code) code := by
  refine restores_check fun length hlength => (restores_u32 length.toUInt32).bind ?_
  rw [UInt16.toNat_toUInt32, toNat_of_fitLength16 hlength]
  exact restores_bytes (reads_take code.bytes).bind_pure

theorem restores_readCode (code : Code) : Restores readCode (emit code) code := by
  change Restores _ (emit code.maxStack ++ emit code.maxLocals ++ emit code.code ++
    emit (0 : UInt16) ++ emit code.attributes) _
  simp only [append_assoc]
  exact (restores_u16 code.maxStack).bind <| (restores_u16 code.maxLocals).bind <|
    (restores_readBytecode code.code).bind <| (restores_u16 0).bind <|
      (restores_list restores_readAttribute code.attributes).bind_pure

theorem restores_readVerificationType (type : VerificationType) :
    Restores readVerificationType (emit type) type := by
  cases type with
  | integer => exact (restores_u8 1).bind_nil (reads_pure _)
  | object index => exact (restores_u8 7).bind (restores_readIndex index).bind_pure

theorem restores_readStackMapFrame (frame : StackMapFrame) :
    Restores readStackMapFrame (emit frame) frame := by
  change Restores _ (emit (255 : UInt8) ++ emit frame.delta ++ emit frame.locals ++
    emit frame.stack) _
  simp only [append_assoc]
  exact (restores_u8 255).bind <| (restores_u16 frame.delta).bind <|
    (restores_list restores_readVerificationType frame.locals).bind
      (restores_list restores_readVerificationType frame.stack).bind_pure

theorem restores_readInnerClass (entry : InnerClass) :
    Restores readInnerClass (emit entry) entry := by
  change Restores _ (emit entry.inner ++ emit entry.outer ++ emit entry.name ++ emit entry.flags) _
  simp only [append_assoc]
  exact (restores_readIndex entry.inner).bind <| (restores_readIndex entry.outer).bind <|
    (restores_readIndex entry.name).bind (restores_readFlags entry.flags).bind_pure

/-! ### Class files -/

/-- A class file as it is read: the constants are a list. -/
structure Image where
  version : Version
  constants : List Constant
  flags : Flags .type
  this : Index .type
  parent : Index .type
  interfaces : List (Index .type)
  fields : List Field
  methods : List Method
  attributes : List Attribute
  deriving DecidableEq

def ClassFile.image (file : ClassFile) : Image :=
  { file with constants := file.pool.toList }

def readVersion : Reader Version := do
  let minor ← u16
  return ⟨← u16, minor⟩

def readField : Reader Field := do
  return ⟨← readFlags, ← readIndex, ← readIndex, ← readList readAttribute⟩

def readMethod : Reader Method := do
  return ⟨← readFlags, ← readIndex, ← readIndex, ← readList readAttribute⟩

def readImage : Reader Image := do
  if (← u32) ≠ magic then failure
  let version ← readVersion
  -- The count is one more than the number of constants.
  let constants ← many readConstant ((← u16).toNat - 1)
  let flags ← readFlags
  let this ← readIndex
  let parent ← readIndex
  let interfaces ← readList readIndex
  let fields ← readList readField
  let methods ← readList readMethod
  let attributes ← readList readAttribute
  return { version, constants, flags, this, parent, interfaces, fields, methods, attributes }

theorem restores_readVersion (version : Version) :
    Restores readVersion (emit version) version :=
  (restores_u16 version.minor).bind (restores_u16 version.major).bind_pure

/-- Fields and methods have the same parts. -/
theorem restores_member {α : Type} {owner : FlagOwner}
    (f : Flags owner → Index .utf8 → Index .utf8 → List Attribute → α) (flags : Flags owner)
    (name descriptor : Index .utf8) (attributes : List Attribute) :
    Restores (do return f (← readFlags) (← readIndex) (← readIndex) (← readList readAttribute))
      (emit flags ++ emit name ++ emit descriptor ++ emit attributes)
      (f flags name descriptor attributes) := by
  simp only [append_assoc]
  exact (restores_readFlags flags).bind <| (restores_readIndex name).bind <|
    (restores_readIndex descriptor).bind (restores_list restores_readAttribute attributes).bind_pure

theorem restores_readField (field : Field) : Restores readField (emit field) field :=
  restores_member Field.mk field.flags field.name field.descriptor field.attributes

theorem restores_readMethod (method : Method) : Restores readMethod (emit method) method :=
  restores_member Method.mk method.flags method.name method.descriptor method.attributes

theorem restores_readImage (file : ClassFile) : Restores readImage (emit file) file.image := by
  refine (restores_u32 magic).bind ?_
  refine (restores_readVersion file.version).bind (restores_check fun count hcount => ?_)
  have hconstants : count.toNat - 1 = file.pool.toList.length := by
    obtain ⟨hlt, rfl⟩ := fitValue_eq_ok_iff.mp hcount
    rw [UInt16.toNat_ofNat_of_lt' hlt, Nat.add_sub_cancel]
    rfl
  refine (restores_u16 count).bind ?_
  rw [hconstants]
  exact (restores_concat fun constant _ => restores_readConstant constant).bind <|
    (restores_readFlags file.flags).bind <| (restores_readIndex file.this).bind <|
    (restores_readIndex file.parent).bind <|
    (restores_list restores_readIndex file.interfaces).bind <|
    (restores_list restores_readField file.fields).bind <|
    (restores_list restores_readMethod file.methods).bind
      (restores_list restores_readAttribute file.attributes).bind_pure

end Layout

end Classfile
