import Classfile.Proofs.Layout.Decodability
import Classfile.Instruction.Encoding

/-!
# Writing with bounded room

Values are written part by part to a writer, with a check before each length. The same order of
writes and checks is recorded by an emission, whatever the writer does with the chunks. So a writer
with bounded room runs out of it exactly if an unbounded one ends with more bytes than there is
room for. Otherwise both end alike, and what the bytes leave of the room is left.
-/

namespace Classfile

open Classfile.Action

/-! ### Writers -/

/-- What becomes of one chunk. -/
abbrev Writer (ω : Type) := List UInt8 → Action ω Unit

namespace Writer

/-- Appends everything. -/
def buffer : Writer (List UInt8) := fun chunk bytes => ⟨.ok (), bytes ++ chunk, []⟩

/-- Takes a chunk only if there is room for all of it. The state is the room. -/
def bounded : Writer Nat := fun chunk room =>
  if chunk.length ≤ room then ⟨.ok (), room - chunk.length, []⟩
  else ⟨.error (.write "failed to write whole buffer"), room, []⟩

end Writer

/-- Values that are written part by part. -/
class Serialize (α : Type) where
  serialize {ω : Type} (write : Writer ω) (a : α) : Action ω Unit

export Serialize (serialize)

instance : Serialize UInt8 := ⟨fun write byte => write [byte]⟩

instance : Serialize UInt16 := ⟨fun write word => write (Bytes.be16 word)⟩

instance : Serialize UInt32 := ⟨fun write word => write (Bytes.be32 word)⟩

instance : Serialize Int8 := ⟨fun write n => serialize write n.toUInt8⟩

instance : Serialize Int16 := ⟨fun write n => serialize write n.toUInt16⟩

instance : Serialize Int32 := ⟨fun write n => serialize write n.toUInt32⟩

instance {α : Type} [Serialize α] : Serialize (List α) where
  serialize write items := do
    let length ← ofExcept (fitLength16 "sequence" items.length)
    serialize write length
    items.forM (serialize write)

instance {kind : IndexKind} : Serialize (Index kind) :=
  ⟨fun write index => serialize write index.val⟩

instance {owner : FlagOwner} : Serialize (Flags owner) :=
  ⟨fun write flags => serialize write flags.bits⟩

/-- The first four local variables have opcodes of their own. -/
def serializeLocal {ω : Type} (write : Writer ω) (short long : UInt8) (i : UInt16) :
    Action ω Unit :=
  if i.toNat ≤ 3 then serialize write (short + i.toUInt8)
  else if i.toNat ≤ 0xFF then do
    serialize write long
    serialize write i.toUInt8
  else do
    serialize write wide
    serialize write long
    serialize write i

/-- An opcode with an operand of any kind. -/
def serializeOperand {ω α : Type} [Serialize α] (write : Writer ω) (opcode : UInt8) (operand : α) :
    Action ω Unit := do
  serialize write opcode
  serialize write operand

instance : Serialize Instruction where
  serialize write
    | .smallInt n => serialize write (0x02 + UInt8.ofNat n.val)
    | .pushByte value => serializeOperand write 0x10 value
    | .pushShort value => serializeOperand write 0x11 value
    | .loadConstant i =>
      if i.val.toNat ≤ 0xFF then serializeOperand write 0x12 i.val.toUInt8
      else serializeOperand write 0x13 i
    | .load slot i => serializeLocal write slot.loadShort slot.loadLong i
    | .store slot i => serializeLocal write slot.storeShort slot.storeLong i
    | .loadCell cell => serialize write cell.loadOpcode
    | .storeCell cell => serialize write cell.storeOpcode
    | .pop => serialize write (0x57 : UInt8)
    | .dup => serialize write (0x59 : UInt8)
    | .swap => serialize write (0x5F : UInt8)
    | .arith op => serialize write op.opcode
    | .negate => serialize write (0x74 : UInt8)
    | .increment i amount =>
      if i.toNat ≤ 0xFF ∧ -0x80 ≤ amount.toInt ∧ amount.toInt ≤ 0x7F then do
        serialize write (0x84 : UInt8)
        serialize write i.toUInt8
        serialize write amount.toInt8
      else do
        serialize write wide
        serialize write (0x84 : UInt8)
        serialize write i
        serialize write amount
    | .getStatic field => serializeOperand write 0xB2 field
    | .putStatic field => serializeOperand write 0xB3 field
    | .getField field => serializeOperand write 0xB4 field
    | .putField field => serializeOperand write 0xB5 field
    | .invoke dispatch method => serializeOperand write dispatch.opcode method
    | .new type => serializeOperand write 0xBB type
    | .newArray element => serializeOperand write 0xBC element.arrayCode
    | .newRefArray element => serializeOperand write 0xBD element
    | .arrayLength => serialize write (0xBE : UInt8)

instance : Serialize Constant where
  serialize write constant := do
    serialize write constant.tag
    match constant with
    | .utf8 text =>
      let encoded := Text.Modified.encode text
      let length ← ofExcept (fitLength16 "utf8 constant" encoded.length)
      serialize write length
      write encoded
    | .integer value => serialize write value
    | .type name => serialize write name
    | .string text => serialize write text
    | .fieldRef owner member | .methodRef owner member =>
      serialize write owner
      serialize write member
    | .nameAndType name descriptor =>
      serialize write name
      serialize write descriptor

instance : Serialize Pool := ⟨fun write pool => pool.toList.forM (serialize write)⟩

namespace Layout

instance : Serialize Attribute where
  serialize write a := do
    serialize write a.name
    let length ← ofExcept (fitLength32 "attribute" a.info.length)
    serialize write length
    write a.info

instance : Serialize Bytecode where
  serialize write code := do
    let length ← ofExcept (fitLength16 "code" code.bytes.length)
    serialize write length.toUInt32
    write code.bytes

instance : Serialize Code where
  serialize write c := do
    serialize write c.maxStack
    serialize write c.maxLocals
    serialize write c.code
    serialize write (0 : UInt16)
    serialize write c.attributes

instance : Serialize VerificationType where
  serialize write
    | .integer => serialize write (1 : UInt8)
    | .object type => do
      serialize write (7 : UInt8)
      serialize write type

instance : Serialize StackMapFrame where
  serialize write frame := do
    serialize write (255 : UInt8)
    serialize write frame.delta
    serialize write frame.locals
    serialize write frame.stack

instance : Serialize InnerClass where
  serialize write c := do
    serialize write c.inner
    serialize write c.outer
    serialize write c.name
    serialize write c.flags

instance : Serialize AttributeBody where
  serialize write
    | .code c => serialize write c
    | .innerClasses entries => serialize write entries
    | .stackMapTable frames => serialize write frames

instance : Serialize Version where
  serialize write v := do
    serialize write v.minor
    serialize write v.major

instance : Serialize Field where
  serialize write f := do
    serialize write f.flags
    serialize write f.name
    serialize write f.descriptor
    serialize write f.attributes

instance : Serialize Method where
  serialize write m := do
    serialize write m.flags
    serialize write m.name
    serialize write m.descriptor
    serialize write m.attributes

instance : Serialize ClassFile where
  serialize write c := do
    serialize write magic
    serialize write c.version
    let count ← ofExcept c.pool.count
    serialize write count
    serialize write c.pool
    serialize write c.flags
    serialize write c.this
    serialize write c.parent
    serialize write c.interfaces
    serialize write c.fields
    serialize write c.methods
    serialize write c.attributes

end Layout

namespace Emission

/-! ### Emissions are what is written -/

variable {ω α : Type} {write : Writer ω}

/-- Hands one chunk after the other to the writer, then stops as the emission does. -/
def perform (write : Writer ω) (e : Emission) : Action ω Unit := do
  e.chunks.forM write
  ofExcept e.outcome

theorem forM_append (f : α → Action ω Unit) (items others : List α) :
    (items ++ others).forM f = (do items.forM f; others.forM f) := by
  induction items with
  | nil => rfl
  | cons a rest ih =>
    change (f a >>= fun _ => (rest ++ others).forM f) = _
    rw [ih]
    exact (Action.bind_assoc _ _ _).symm

theorem perform_bytes (chunk : List UInt8) : perform write (bytes chunk) = write chunk := by
  change ((write chunk >>= fun _ => pure ()) >>= fun _ => pure ()) = _
  rw [Action.bind_pure, Action.bind_pure]

theorem perform_append (a b : Emission) :
    perform write (a ++ b) = (do perform write a; perform write b) := by
  obtain ⟨chunks, _ | error⟩ := a
  · change ((chunks ++ b.chunks).forM write >>= fun _ => ofExcept b.outcome) = _
    rw [forM_append, Action.bind_assoc]
    exact (Action.bind_assoc _ (fun _ => pure ()) fun _ => perform write b).symm
  · exact (Action.bind_assoc _ (fun _ => Action.fail error) fun _ => perform write b).symm

theorem perform_check {value : Except Error α} {next : α → Emission} :
    perform write (check value next) = (do
      let a ← ofExcept value
      perform write (next a)) := by
  cases value <;> rfl

theorem perform_concat [Emit α] {f : α → Action ω Unit} {items : List α}
    (h : ∀ a ∈ items, perform write (emit a) = f a) :
    perform write (concat (items.map emit)) = items.forM f := by
  induction items with
  | nil => rfl
  | cons a rest ih =>
    rw [List.forall_mem_cons] at h
    change perform write (emit a ++ concat (rest.map emit)) = _
    rw [perform_append, h.1, ih h.2]
    rfl

/-- Whatever the writer, the parts of the value come to it as the emission says. -/
def Records [Emit α] [Serialize α] (a : α) : Prop :=
  ∀ {ω : Type} (write : Writer ω), perform write (emit a) = serialize write a

theorem records_u8 (byte : UInt8) : Records byte := fun _ => perform_bytes _

theorem records_u16 (word : UInt16) : Records word := fun _ => perform_bytes _

theorem records_u32 (word : UInt32) : Records word := fun _ => perform_bytes _

theorem records_index {kind : IndexKind} (index : Index kind) : Records index :=
  records_u16 index.val

theorem records_flags {owner : FlagOwner} (flags : Flags owner) : Records flags :=
  records_u16 flags.bits

theorem records_list [Emit α] [Serialize α] {items : List α} (h : ∀ a ∈ items, Records a) :
    Records items := by
  intro ω write
  change perform write (check (fitLength16 "sequence" items.length) fun length =>
    emit length ++ concat (items.map emit)) = _
  simp only [perform_check, perform_append, records_u16 _ write,
    perform_concat fun a ha => h a ha write]
  rfl

theorem perform_pieces (pieces : List (List UInt8)) :
    perform write ⟨pieces, none⟩ = pieces.forM write :=
  Action.bind_pure _

theorem forM_localPieces (short long : UInt8) (i : UInt16) :
    (localPieces short long i).forM write = serializeLocal write short long i := by
  unfold localPieces serializeLocal
  split
  · simp only [List.forM, Action.bind_pure, serialize]
  · split <;> simp only [List.forM, Action.bind_pure, serialize]

theorem records_instruction (instruction : Instruction) : Records instruction := by
  intro ω write
  refine (perform_pieces instruction.pieces).trans ?_
  cases instruction with
  | load slot i | store slot i => exact forM_localPieces _ _ i
  | loadConstant i | increment i amount =>
    simp only [Instruction.pieces, serialize, serializeOperand]
    split <;> simp only [List.forM, Action.bind_pure]
  | _ =>
    simp only [Instruction.pieces, serialize, serializeOperand, List.forM,
      Action.bind_pure]

theorem records_constant (constant : Constant) : Records constant := by
  intro ω write
  cases constant with
  | utf8 text =>
    simp only [emit, serialize, perform_check, perform_append, perform_bytes]
  | _ => simp only [emit, serialize, perform_append, perform_bytes]

theorem records_pool (pool : Pool) : Records pool :=
  fun write => perform_concat fun constant _ => records_constant constant write

end Emission

namespace Layout

open Emission

theorem records_attribute (a : Attribute) : Records a := by
  intro ω write
  simp only [emit, serialize, perform_check, perform_append, perform_bytes]

theorem records_bytecode (code : Bytecode) : Records code := by
  intro ω write
  simp only [emit, serialize, perform_check, perform_append, perform_bytes]

theorem records_attributes (attributes : List Attribute) : Records attributes :=
  records_list fun a _ => records_attribute a

theorem records_code (code : Code) : Records code := by
  intro ω write
  change perform write (emit code.maxStack ++ emit code.maxLocals ++ emit code.code
    ++ emit (0 : UInt16) ++ emit code.attributes) = _
  simp only [perform_append, Action.bind_assoc, records_u16 _ write, records_bytecode _ write,
    records_attributes _ write]
  rfl

theorem records_verificationType (type : VerificationType) : Records type := by
  intro ω write
  cases type with
  | integer => exact records_u8 1 write
  | object index => simp only [emit, serialize, perform_append, perform_bytes]

theorem records_frame (frame : StackMapFrame) : Records frame := by
  intro ω write
  have htypes (types : List VerificationType) : Records types :=
    records_list fun type _ => records_verificationType type
  change perform write (emit (255 : UInt8) ++ emit frame.delta ++ emit frame.locals
    ++ emit frame.stack) = _
  simp only [perform_append, Action.bind_assoc, records_u8 _ write, records_u16 _ write,
    htypes _ write]
  rfl

theorem records_innerClass (entry : InnerClass) : Records entry := by
  intro ω write
  simp only [emit, serialize, perform_append, perform_bytes, Action.bind_assoc]

theorem records_body (body : AttributeBody) : Records body := by
  intro ω write
  cases body with
  | code code => exact records_code code write
  | innerClasses entries => exact records_list (fun entry _ => records_innerClass entry) write
  | stackMapTable frames => exact records_list (fun frame _ => records_frame frame) write

theorem records_version (version : Version) : Records version := by
  intro ω write
  simp only [emit, serialize, perform_append, perform_bytes]

/-- Fields and methods have the same parts. -/
theorem perform_member {ω : Type} (write : Writer ω) {owner : FlagOwner} (flags : Flags owner)
    (name descriptor : Index .utf8) (attributes : List Attribute) :
    perform write (emit flags ++ emit name ++ emit descriptor ++ emit attributes) = (do
      serialize write flags
      serialize write name
      serialize write descriptor
      serialize write attributes) := by
  simp only [perform_append, Action.bind_assoc, records_flags _ write, records_index _ write,
    records_attributes _ write]

theorem records_field (field : Field) : Records field :=
  fun write => perform_member write field.flags field.name field.descriptor field.attributes

theorem records_method (method : Method) : Records method :=
  fun write => perform_member write method.flags method.name method.descriptor method.attributes

theorem records_classFile (file : ClassFile) : Records file := by
  intro ω write
  have hinterfaces : Records file.interfaces := records_list fun index _ => records_index index
  have hfields : Records file.fields := records_list fun field _ => records_field field
  have hmethods : Records file.methods := records_list fun method _ => records_method method
  change perform write (emit magic ++ (emit file.version ++ check file.pool.count fun count =>
    emit count ++ (emit file.pool ++ (emit file.flags ++ (emit file.this ++ (emit file.parent ++
      (emit file.interfaces ++ (emit file.fields ++ (emit file.methods ++
        emit file.attributes))))))))) = _
  simp only [perform_append, perform_check, records_u16 _ write, records_u32 _ write,
    records_version _ write, records_pool _ write, records_flags _ write, records_index _ write,
    hinterfaces write, hfields write, hmethods write, records_attributes _ write]
  rfl

end Layout

/-! ### Every value that can be written -/

/-- The values with a form in a class file, and lists of them in any depth. -/
inductive Writable : {α : Type} → [Emit α] → [Serialize α] → α → Prop
  | u8 (n : UInt8) : Writable n
  | u16 (n : UInt16) : Writable n
  | u32 (n : UInt32) : Writable n
  | i8 (n : Int8) : Writable n
  | i16 (n : Int16) : Writable n
  | i32 (n : Int32) : Writable n
  | index {kind : IndexKind} (index : Index kind) : Writable index
  | flags {owner : FlagOwner} (flags : Flags owner) : Writable flags
  | instruction (instruction : Instruction) : Writable instruction
  | constant (constant : Constant) : Writable constant
  | pool (pool : Pool) : Writable pool
  | namedAttribute (a : Layout.Attribute) : Writable a
  | bytecode (code : Layout.Bytecode) : Writable code
  | code (code : Layout.Code) : Writable code
  | verificationType (type : Layout.VerificationType) : Writable type
  | frame (frame : Layout.StackMapFrame) : Writable frame
  | innerClass (entry : Layout.InnerClass) : Writable entry
  | attributeBody (body : Layout.AttributeBody) : Writable body
  | version (version : Layout.Version) : Writable version
  | field (field : Layout.Field) : Writable field
  | method (method : Layout.Method) : Writable method
  | classFile {file : Layout.ClassFile} : file.pool.Reachable → Writable file
  | list {α : Type} [Emit α] [Serialize α] {items : List α} :
    (∀ a ∈ items, Writable a) → Writable items

namespace Writable

open Emission Layout

variable {α : Type} [Emit α] [Serialize α] {v : α}

theorem records (h : Writable v) : Records v := by
  induction h with
  | u8 n => exact records_u8 n
  | u16 n => exact records_u16 n
  | u32 n => exact records_u32 n
  | i8 n => exact records_u8 n.toUInt8
  | i16 n => exact records_u16 n.toUInt16
  | i32 n => exact records_u32 n.toUInt32
  | index index => exact records_index index
  | flags flags => exact records_flags flags
  | instruction instruction => exact records_instruction instruction
  | constant constant => exact records_constant constant
  | pool pool => exact records_pool pool
  | namedAttribute a => exact records_attribute a
  | bytecode code => exact records_bytecode code
  | code code => exact records_code code
  | verificationType type => exact records_verificationType type
  | frame frame => exact records_frame frame
  | innerClass entry => exact records_innerClass entry
  | attributeBody body => exact records_body body
  | version version => exact records_version version
  | field field => exact records_field field
  | method method => exact records_method method
  | classFile _ => exact records_classFile _
  | list _ ih => exact records_list ih

/-- Nothing but a length stops the writing of such a value. -/
theorem stopsWith (h : Writable v) :
    StopsWith (fun error => ∃ what length, error = .lengthOverflow what length) (emit v) := by
  induction h with
  | u8 n | i8 n | u16 n | i16 n | u32 n | i32 n | index n | flags n => exact stopsWith_bytes _
  | instruction instruction => nofun
  | constant constant => exact (overflows_constant constant).error
  | pool pool => exact (overflows_concat overflows_constant pool.toList).error
  | namedAttribute a => exact (overflows_attribute a).error
  | bytecode code => exact (overflows_bytecode code).error
  | code code => exact (overflows_code code).error
  | verificationType type => exact (overflows_verificationType type).error
  | frame frame => exact (overflows_frame frame).error
  | innerClass entry => exact (overflows_innerClass entry).error
  | attributeBody body => exact (overflows_body body).error
  | version version => exact (stopsWith_bytes _).append (stopsWith_bytes _)
  | field field => exact (overflows_field field).error
  | method method => exact (overflows_method method).error
  | classFile hpool => exact (overflows_classFile hpool).error
  | list _ ih => exact stopsWith_list (fun length => ⟨_, length, rfl⟩) ih

end Writable

namespace Emission

open Writer

/-! ### The two writers -/

variable {e : Emission} {room : Nat}

theorem gives_forM_buffer (chunks : List (List UInt8)) (bytes : List UInt8) :
    Gives (chunks.forM buffer) bytes () (bytes ++ chunks.flatten) := by
  induction chunks generalizing bytes with
  | nil => exact ⟨rfl, (List.append_nil bytes).symm⟩
  | cons chunk rest ih =>
    have hrest := ih (bytes ++ chunk)
    rw [List.append_assoc] at hrest
    exact gives_bind.mpr ⟨(), bytes ++ chunk, ⟨rfl, rfl⟩, hrest⟩

theorem perform_buffer (e : Emission) :
    (perform buffer e []).result = e.outcome ∧ (perform buffer e []).state = e.written :=
  bind_of_gives (gives_forM_buffer e.chunks []) _

theorem gives_bounded {chunk : List UInt8} (h : chunk.length ≤ room) :
    Gives (bounded chunk) room () (room - chunk.length) := by
  simp [Gives, bounded, h]

theorem fails_bounded {chunk : List UInt8} (h : room < chunk.length) :
    Fails (bounded chunk) room (.write "failed to write whole buffer") room := by
  simp [Fails, bounded, Nat.not_le.mpr h]

/-- The chunks fit one by one if they fit together. -/
theorem gives_forM_bounded {chunks : List (List UInt8)} (h : chunks.flatten.length ≤ room) :
    Gives (chunks.forM bounded) room () (room - chunks.flatten.length) := by
  induction chunks generalizing room with
  | nil => exact ⟨rfl, rfl⟩
  | cons chunk rest ih =>
    rw [List.flatten_cons, List.length_append] at h ⊢
    have hfit : rest.flatten.length ≤ room - chunk.length := by omega
    have hrest := ih hfit
    rw [Nat.sub_sub] at hrest
    exact gives_bind.mpr ⟨(), _, gives_bounded (by omega), hrest⟩

/-- If they do not fit together, one of them is refused. -/
theorem fails_forM_bounded {chunks : List (List UInt8)} (h : room < chunks.flatten.length) :
    ∃ left, Fails (chunks.forM bounded) room (.write "failed to write whole buffer") left := by
  induction chunks generalizing room with
  | nil => exact absurd h (Nat.not_lt_zero room)
  | cons chunk rest ih =>
    rw [List.flatten_cons, List.length_append] at h
    by_cases hchunk : chunk.length ≤ room
    · have hrest : room - chunk.length < rest.flatten.length := by omega
      obtain ⟨left, hleft⟩ := ih hrest
      exact ⟨left, fails_bind.mpr (.inr ⟨(), _, gives_bounded hchunk, hleft⟩)⟩
    · exact ⟨room, fails_bind.mpr (.inl (fails_bounded (Nat.lt_of_not_le hchunk)))⟩

theorem perform_bounded_of_le (h : e.written.length ≤ room) :
    (perform bounded e room).result = e.outcome ∧
      (perform bounded e room).state = room - e.written.length :=
  bind_of_gives (gives_forM_bounded h) _

theorem perform_bounded_of_lt (h : room < e.written.length) :
    (perform bounded e room).result = .error (.write "failed to write whole buffer") := by
  obtain ⟨left, hleft⟩ := fails_forM_bounded h
  exact (fails_bind.mpr (.inl hleft)).1

theorem fit_eq (room : Nat) (chunks : List (List UInt8)) :
    fit room chunks =
      if chunks.flatten.length ≤ room then some (room - chunks.flatten.length) else none := by
  induction chunks generalizing room with
  | nil => rfl
  | cons chunk rest ih =>
    rw [fit, ih, List.flatten_cons, List.length_append]
    grind

theorem writeWithin_eq (room : Nat) (e : Emission) :
    e.writeWithin room =
      (perform bounded e room).result.map fun _ => (perform bounded e room).state := by
  rw [writeWithin, fit_eq]
  by_cases h : e.chunks.flatten.length ≤ room
  · rw [if_pos h, (perform_bounded_of_le h).1, (perform_bounded_of_le h).2, outcome]
    cases e.stop <;> rfl
  · rw [if_neg h, perform_bounded_of_lt (Nat.lt_of_not_le h)]
    rfl

end Emission

open Emission Writer

/-- A writer with bounded room is refused exactly if an unbounded one ends with more bytes than
there is room for. Otherwise the two end alike, be it with an error, and the bytes are what is
missing from the room. The unbounded one ends without error, or with a length that does not fit. -/
theorem serialize_bounded {α : Type} [Emit α] [Serialize α] {v : α} (hv : Writable v)
    (room : Nat) :
    let full := serialize buffer v []
    let cut := serialize bounded v room
    (full.result = .ok () ∨ ∃ what length, full.result = .error (.lengthOverflow what length)) ∧
    ((∃ cause, cut.result = .error (.write cause)) ↔ room < full.state.length) ∧
    (full.state.length ≤ room →
      cut.result = full.result ∧ cut.state = room - full.state.length) ∧
    (emit v).outcome = full.result ∧ (emit v).written = full.state ∧
    (emit v).writeWithin room = cut.result.map fun _ => cut.state := by
  rw [← hv.records, ← hv.records, writeWithin_eq]
  obtain ⟨hresult, hstate⟩ := perform_buffer (emit v)
  simp only [hresult, hstate]
  have hends : (emit v).outcome = .ok () ∨
      ∃ what length, (emit v).outcome = .error (.lengthOverflow what length) := by
    unfold outcome
    split
    · exact .inl rfl
    · next error hstop =>
      obtain ⟨what, length, rfl⟩ := hv.stopsWith error hstop
      exact .inr ⟨what, length, rfl⟩
  refine ⟨hends, ⟨?_, ?_⟩, ?_, trivial, trivial, trivial⟩
  · rintro ⟨cause, hcause⟩
    -- With room enough the two outcomes agree, and an emission does not stop for want of room.
    by_contra hfits
    rw [(perform_bounded_of_le (Nat.le_of_not_lt hfits)).1] at hcause
    simp [hcause] at hends
  · intro hlong
    exact ⟨_, perform_bounded_of_lt hlong⟩
  · intro hfits
    exact perform_bounded_of_le hfits

/-- Two lists, of which the second has more elements than can be counted. -/
def overlong : List (List UInt8) := [[1], List.replicate 0x10000 0]

theorem emit_overlong :
    emit overlong = ⟨[[0, 2], [0, 1], [1]], some (.lengthOverflow "sequence" 0x10000)⟩ := by
  have hlong : emit (List.replicate 0x10000 (0 : UInt8)) =
      Emission.fail (.lengthOverflow "sequence" 0x10000) := by
    change check (fitLength16 "sequence" (List.replicate 0x10000 (0 : UInt8)).length) _ = _
    rw [List.length_replicate]
    rfl
  change emit (2 : UInt16) ++
    (emit [(1 : UInt8)] ++ (emit (List.replicate 0x10000 (0 : UInt8)) ++ nothing)) = _
  rw [hlong]
  rfl

/-- Five bytes are written before the second length is checked. With less room that check is not
reached. An instruction whose operand does not fit leaves no room for another opcode. -/
theorem serialize_bounded_overlong :
    Writable overlong ∧
    (emit overlong).writeWithin 4 = .error (.write "failed to write whole buffer") ∧
    (∃ cause, (serialize bounded overlong 4).result = .error (.write cause)) ∧
    (serialize bounded overlong 5).result = .error (.lengthOverflow "sequence" 0x10000) ∧
    (serialize bounded overlong 5).state = 0 ∧
    (∃ cause, (serialize bounded (Instruction.pushByte 7) 1).result = .error (.write cause)) ∧
    (serialize bounded (Instruction.pushByte 7) 1).state = 0 := by
  have hv : Writable overlong := .list fun items _ => .list fun n _ => .u8 n
  obtain ⟨-, hrefused, -, -, hwritten, -⟩ := serialize_bounded hv 4
  obtain ⟨-, -, hagrees, houtcome, -, -⟩ := serialize_bounded hv 5
  obtain ⟨-, hcut, -⟩ := serialize_bounded (.instruction (.pushByte 7)) 1
  rw [← hwritten, emit_overlong] at hrefused hagrees
  rw [← houtcome, emit_overlong] at hagrees
  obtain ⟨hresult, hstate⟩ := hagrees (by decide)
  refine ⟨hv, ?_, hrefused.mpr (by decide), hresult, hstate, hcut.mpr (by decide), rfl⟩
  rw [emit_overlong]
  rfl

end Classfile
