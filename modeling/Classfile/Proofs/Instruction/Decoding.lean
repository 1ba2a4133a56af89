import Classfile.Instruction.Encoding
import Classfile.Proofs.Reader

/-!
# Decoding of instructions

What a machine reads in the bytes of a method: one instruction after the other, each from its opcode
and the operands that follow. Every form of an instruction is read, not only the shortest one. An
operation that was encoded is read back as it was, with the distance in place of the target.
-/

namespace Classfile

open Reader

/-- An operation as a machine sees it. Jumps have a distance and no label. -/
inductive Decoded where
  | plain (instruction : Instruction)
  | ifZero (test : Comparison) (distance : Int16)
  | ifInts (test : Comparison) (distance : Int16)
  | ifRefs (test : Sameness) (distance : Int16)
  | goto (distance : Int16)
  | leave (value : Option Slot)
  deriving DecidableEq

/-- The operation once the distance to its target is known. -/
def Operation.decoded (distance : Int16) : Operation → Decoded
  | plain instruction => .plain instruction
  | branch (.ifZero test _) => .ifZero test distance
  | branch (.ifInts test _) => .ifInts test distance
  | branch (.ifRefs test _) => .ifRefs test distance
  | branch (.goto _) => .goto distance
  | branch (.leave value) => .leave value

/-! ### Forms of an instruction -/

/-- Variables that a short form cannot name have the longer forms only. -/
def localForms (short long : UInt8) (i : UInt16) : List (List UInt8) :=
  (if i.toNat ≤ 3 then [[short + i.toUInt8]] else []) ++
    (if i.toNat ≤ 0xFF then [[long, i.toUInt8]] else []) ++ [wide :: long :: Bytes.be16 i]

/-- All encodings of the instruction. Most have a single one. -/
def Instruction.forms : Instruction → List (List UInt8)
  | load slot i => localForms slot.loadShort slot.loadLong i
  | store slot i => localForms slot.storeShort slot.storeLong i
  | loadConstant i =>
    (if i.val.toNat ≤ 0xFF then [[0x12, i.val.toUInt8]] else []) ++ [0x13 :: Bytes.be16 i.val]
  | increment i amount =>
    (if i.toNat ≤ 0xFF ∧ -0x80 ≤ amount.toInt ∧ amount.toInt ≤ 0x7F then
      [[0x84, i.toUInt8, amount.toInt8.toUInt8]] else []) ++
    [wide :: 0x84 :: (Bytes.be16 i ++ Bytes.be16 amount.toUInt16)]
  | instruction => [instruction.encode]

theorem mem_localForms {short long : UInt8} {i : UInt16} {form : List UInt8} :
    form ∈ localForms short long i ↔
      (i.toNat ≤ 3 ∧ form = [short + i.toUInt8]) ∨ (i.toNat ≤ 0xFF ∧ form = [long, i.toUInt8]) ∨
        form = wide :: long :: Bytes.be16 i := by
  simp only [localForms, List.mem_append, List.mem_ite_nil_right, List.mem_singleton, or_assoc]

theorem localPieces_mem_localForms (short long : UInt8) (i : UInt16) :
    (localPieces short long i).flatten ∈ localForms short long i := by
  rw [mem_localForms, localPieces]
  split
  · next hfirst => exact .inl ⟨hfirst, rfl⟩
  · split
    · next hbyte => exact .inr (.inl ⟨hbyte, rfl⟩)
    · exact .inr (.inr rfl)

namespace Instruction

theorem mem_forms_loadConstant {i : Index .any} {form : List UInt8} :
    form ∈ (loadConstant i).forms ↔
      (i.val.toNat ≤ 0xFF ∧ form = [0x12, i.val.toUInt8]) ∨ form = 0x13 :: Bytes.be16 i.val := by
  simp only [forms, List.mem_append, List.mem_ite_nil_right, List.mem_singleton]

theorem mem_forms_increment {i : UInt16} {amount : Int16} {form : List UInt8} :
    form ∈ (increment i amount).forms ↔
      ((i.toNat ≤ 0xFF ∧ -0x80 ≤ amount.toInt ∧ amount.toInt ≤ 0x7F) ∧
        form = [0x84, i.toUInt8, amount.toInt8.toUInt8]) ∨
      form = wide :: 0x84 :: (Bytes.be16 i ++ Bytes.be16 amount.toUInt16) := by
  simp only [forms, List.mem_append, List.mem_ite_nil_right, List.mem_singleton]

theorem encode_mem_forms (instruction : Instruction) :
    instruction.encode ∈ instruction.forms := by
  cases instruction with
  | load slot i => exact localPieces_mem_localForms _ _ _
  | store slot i => exact localPieces_mem_localForms _ _ _
  | loadConstant i =>
    rw [mem_forms_loadConstant, encode, pieces]
    split
    · next hbyte => exact .inl ⟨hbyte, rfl⟩
    · exact .inr rfl
  | increment i amount =>
    rw [mem_forms_increment, encode, pieces]
    split
    · next hsmall => exact .inl ⟨hsmall, rfl⟩
    · exact .inr rfl
  | _ => exact List.mem_singleton_self _

end Instruction

namespace Decoded

/-! ### Opcodes by their operands -/

def bare? : UInt8 → Option Decoded
  | 0x02 => some (.plain (.smallInt 0))
  | 0x03 => some (.plain (.smallInt 1))
  | 0x04 => some (.plain (.smallInt 2))
  | 0x05 => some (.plain (.smallInt 3))
  | 0x06 => some (.plain (.smallInt 4))
  | 0x07 => some (.plain (.smallInt 5))
  | 0x08 => some (.plain (.smallInt 6))
  | 0x1A => some (.plain (.load .int 0))
  | 0x1B => some (.plain (.load .int 1))
  | 0x1C => some (.plain (.load .int 2))
  | 0x1D => some (.plain (.load .int 3))
  | 0x2A => some (.plain (.load .ref 0))
  | 0x2B => some (.plain (.load .ref 1))
  | 0x2C => some (.plain (.load .ref 2))
  | 0x2D => some (.plain (.load .ref 3))
  | 0x2E => some (.plain (.loadCell .int))
  | 0x32 => some (.plain (.loadCell .ref))
  | 0x33 => some (.plain (.loadCell .byte))
  | 0x3B => some (.plain (.store .int 0))
  | 0x3C => some (.plain (.store .int 1))
  | 0x3D => some (.plain (.store .int 2))
  | 0x3E => some (.plain (.store .int 3))
  | 0x4B => some (.plain (.store .ref 0))
  | 0x4C => some (.plain (.store .ref 1))
  | 0x4D => some (.plain (.store .ref 2))
  | 0x4E => some (.plain (.store .ref 3))
  | 0x4F => some (.plain (.storeCell .int))
  | 0x53 => some (.plain (.storeCell .ref))
  | 0x54 => some (.plain (.storeCell .byte))
  | 0x57 => some (.plain .pop)
  | 0x59 => some (.plain .dup)
  | 0x5F => some (.plain .swap)
  | 0x60 => some (.plain (.arith .add))
  | 0x64 => some (.plain (.arith .sub))
  | 0x68 => some (.plain (.arith .mul))
  | 0x6C => some (.plain (.arith .div))
  | 0x70 => some (.plain (.arith .rem))
  | 0x74 => some (.plain .negate)
  | 0x78 => some (.plain (.arith .shl))
  | 0x7A => some (.plain (.arith .shr))
  | 0xAC => some (.leave (some .int))
  | 0xB0 => some (.leave (some .ref))
  | 0xB1 => some (.leave none)
  | 0xBE => some (.plain .arrayLength)
  | _ => none

/-- Opcodes followed by a signed distance. -/
def jump? : UInt8 → Option (Int16 → Decoded)
  | 0x99 => some (.ifZero .eq)
  | 0x9A => some (.ifZero .ne)
  | 0x9B => some (.ifZero .lt)
  | 0x9C => some (.ifZero .ge)
  | 0x9D => some (.ifZero .gt)
  | 0x9E => some (.ifZero .le)
  | 0x9F => some (.ifInts .eq)
  | 0xA0 => some (.ifInts .ne)
  | 0xA1 => some (.ifInts .lt)
  | 0xA2 => some (.ifInts .ge)
  | 0xA3 => some (.ifInts .gt)
  | 0xA4 => some (.ifInts .le)
  | 0xA5 => some (.ifRefs .eq)
  | 0xA6 => some (.ifRefs .ne)
  | 0xA7 => some .goto
  | _ => none

/-- Opcodes followed by an index into the pool. -/
def pooled? : UInt8 → Option (UInt16 → Instruction)
  | 0x13 => some fun i => .loadConstant ⟨i⟩
  | 0xB2 => some fun i => .getStatic ⟨i⟩
  | 0xB3 => some fun i => .putStatic ⟨i⟩
  | 0xB4 => some fun i => .getField ⟨i⟩
  | 0xB5 => some fun i => .putField ⟨i⟩
  | 0xB6 => some fun i => .invoke .virtual ⟨i⟩
  | 0xB7 => some fun i => .invoke .special ⟨i⟩
  | 0xB8 => some fun i => .invoke .static ⟨i⟩
  | 0xBB => some fun i => .new ⟨i⟩
  | 0xBD => some fun i => .newRefArray ⟨i⟩
  | _ => none

/-- Opcodes followed by a local variable, of one byte or, once widened, of two. -/
def local? : UInt8 → Option (UInt16 → Instruction)
  | 0x15 => some (.load .int)
  | 0x19 => some (.load .ref)
  | 0x36 => some (.store .int)
  | 0x3A => some (.store .ref)
  | _ => none

def elementType? : UInt8 → Option BaseType
  | 4 => some .boolean
  | 5 => some .char
  | 6 => some .float
  | 7 => some .double
  | 8 => some .byte
  | 9 => some .short
  | 10 => some .int
  | 11 => some .long
  | _ => none

/-! ### The decoder -/

def readWidened : Reader Instruction := do
  let opcode ← u8
  let index ← u16
  if opcode = 0x84 then
    return .increment index (← u16).toInt16
  else
    let some instruction := local? opcode | failure
    return instruction index

/-- The other opcodes, whose operands are of their own shape. -/
def readOther (opcode : UInt8) : Reader Instruction :=
  match opcode with
  | 0x10 => return .pushByte (← u8).toInt8
  | 0x11 => return .pushShort (← u16).toInt16
  | 0x12 => return .loadConstant ⟨(← u8).toUInt16⟩
  | 0x84 => do
    let index ← u8
    return .increment index.toUInt16 (← u8).toInt8.toInt16
  | 0xBC => do
    let some element := elementType? (← u8) | failure
    return .newArray element
  | 0xC4 => readWidened
  | _ => failure

def readOperands (opcode : UInt8) : Reader Decoded :=
  match bare? opcode, jump? opcode, pooled? opcode, local? opcode with
  | some operation, _, _, _ => return operation
  | _, some jump, _, _ => return jump (← u16).toInt16
  | _, _, some instruction, _ => return .plain (instruction (← u16))
  | _, _, _, some instruction => return .plain (instruction (← u8).toUInt16)
  | none, none, none, none => return .plain (← readOther opcode)

def read : Reader Decoded := do readOperands (← u8)

/-! ### Encoded operations are read back -/

variable {opcode : UInt8} {operands : List UInt8}

theorem reads_read {decoded : Decoded} (h : Reads (readOperands opcode) operands decoded) :
    Reads read (opcode :: operands) decoded :=
  (reads_u8 opcode).bind h

theorem reads_bare {decoded : Decoded} (h : bare? opcode = some decoded) :
    Reads read [opcode] decoded := by
  refine reads_read ?_
  rw [readOperands, h]
  exact reads_pure decoded

theorem reads_jump {jump : Int16 → Decoded} (hbare : bare? opcode = none)
    (h : jump? opcode = some jump) (distance : Int16) :
    Reads read (opcode :: Bytes.be16 distance.toUInt16) (jump distance) := by
  refine reads_read ?_
  rw [readOperands, hbare, h]
  exact (reads_u16 distance.toUInt16).bind_pure

theorem reads_pooled {index : UInt16} {instruction : Instruction} (hbare : bare? opcode = none)
    (hjump : jump? opcode = none) (h : (pooled? opcode).map (· index) = some instruction) :
    Reads read (opcode :: Bytes.be16 index) (.plain instruction) := by
  obtain ⟨make, hmake, rfl⟩ := Option.map_eq_some_iff.mp h
  refine reads_read ?_
  rw [readOperands, hbare, hjump, hmake]
  exact (reads_u16 index).bind_pure

theorem reads_other {instruction : Instruction} (hbare : bare? opcode = none)
    (hjump : jump? opcode = none) (hpooled : pooled? opcode = none) (hlocal : local? opcode = none)
    (h : Reads (readOther opcode) operands instruction) :
    Reads read (opcode :: operands) (.plain instruction) := by
  refine reads_read ?_
  rw [readOperands, hbare, hjump, hpooled, hlocal]
  exact h.bind_pure

theorem reads_widened {instruction : UInt16 → Instruction} (hne : opcode ≠ 0x84)
    (h : local? opcode = some instruction) (index : UInt16) :
    Reads read (wide :: opcode :: Bytes.be16 index) (.plain (instruction index)) := by
  refine reads_other rfl rfl rfl rfl ?_
  refine (reads_u8 opcode).bind (f := fun opcode => _) ?_
  refine (reads_u16 index).bind_nil (f := fun index => _) ?_
  rw [if_neg hne, h]
  exact reads_pure _

theorem toUInt16_toUInt8 {index : UInt16} (h : index.toNat ≤ 0xFF) :
    index.toUInt8.toUInt16 = index := by
  apply UInt16.toNat_inj.mp
  rw [UInt8.toNat_toUInt16, UInt16.toNat_toUInt8]
  omega

/-- The short opcodes are those of the first four local variables. -/
theorem reads_localForms {short : UInt8} {instruction : UInt16 → Instruction}
    (hshort : ∀ i : Fin 4, bare? (short + UInt8.ofNat i) = some (.plain (instruction (.ofNat i))))
    (hbare : bare? opcode = none) (hjump : jump? opcode = none) (hpooled : pooled? opcode = none)
    (hne : opcode ≠ 0x84) (h : local? opcode = some instruction) {index : UInt16}
    {form : List UInt8} (hform : form ∈ localForms short opcode index) :
    Reads read form (.plain (instruction index)) := by
  obtain ⟨hfirst, rfl⟩ | ⟨hbyte, rfl⟩ | rfl := mem_localForms.mp hform
  · have hbare := hshort ⟨index.toNat, by omega⟩
    rw [UInt16.ofNat_toNat, UInt8.ofNat_uInt16ToNat] at hbare
    exact reads_bare hbare
  · refine reads_read ?_
    rw [readOperands, hbare, hjump, hpooled, h]
    have hread := (reads_u8 index.toUInt8).bind_pure
      (f := fun byte => Decoded.plain (instruction byte.toUInt16))
    rwa [toUInt16_toUInt8 hbyte] at hread
  · exact reads_widened hne h index

theorem reads_load {slot : Slot} {i : UInt16} {form : List UInt8}
    (hform : form ∈ (Instruction.load slot i).forms) : Reads read form (.plain (.load slot i)) := by
  cases slot with
  | int => exact reads_localForms (by decide) rfl rfl rfl (by decide) rfl hform
  | ref => exact reads_localForms (by decide) rfl rfl rfl (by decide) rfl hform

theorem reads_store {slot : Slot} {i : UInt16} {form : List UInt8}
    (hform : form ∈ (Instruction.store slot i).forms) :
    Reads read form (.plain (.store slot i)) := by
  cases slot with
  | int => exact reads_localForms (by decide) rfl rfl rfl (by decide) rfl hform
  | ref => exact reads_localForms (by decide) rfl rfl rfl (by decide) rfl hform

theorem reads_loadConstant {i : Index .any} {form : List UInt8}
    (hform : form ∈ (Instruction.loadConstant i).forms) :
    Reads read form (.plain (.loadConstant i)) := by
  obtain ⟨hbyte, rfl⟩ | rfl := Instruction.mem_forms_loadConstant.mp hform
  · have hread := (reads_u8 i.val.toUInt8).bind_pure
      (f := fun byte => Instruction.loadConstant ⟨byte.toUInt16⟩)
    rw [toUInt16_toUInt8 hbyte] at hread
    exact reads_other rfl rfl rfl rfl hread
  · exact reads_pooled rfl rfl rfl

theorem toInt16_toInt8 {amount : Int16} (h : -0x80 ≤ amount.toInt ∧ amount.toInt ≤ 0x7F) :
    amount.toInt8.toInt16 = amount := by
  apply Int16.toInt_inj.mp
  rw [Int8.toInt_toInt16, Int16.toInt_toInt8, Int.bmod_eq_of_le (by omega) (by omega)]

theorem reads_increment {i : UInt16} {amount : Int16} {form : List UInt8}
    (hform : form ∈ (Instruction.increment i amount).forms) :
    Reads read form (.plain (.increment i amount)) := by
  obtain ⟨hsmall, rfl⟩ | rfl := Instruction.mem_forms_increment.mp hform
  · refine reads_other rfl rfl rfl rfl ?_
    have hread := (reads_u8 i.toUInt8).bind
      (f := fun index => do return Instruction.increment index.toUInt16 (← u8).toInt8.toInt16)
      (reads_u8 amount.toInt8.toUInt8).bind_pure
    rwa [toUInt16_toUInt8 hsmall.1, Int8.toInt8_toUInt8, toInt16_toInt8 hsmall.2] at hread
  · refine reads_other rfl rfl rfl rfl ?_
    exact (reads_u8 0x84).bind (f := fun opcode => _) <|
      (reads_u16 i).bind (f := fun index => _) (reads_u16 amount.toUInt16).bind_pure

theorem reads_encode (instruction : Instruction) :
    Reads read instruction.encode (.plain instruction) := by
  cases instruction with
  | smallInt n =>
    have hbare : ∀ n : Fin 7, bare? (0x02 + UInt8.ofNat n.val) = some (.plain (.smallInt n)) := by
      decide
    exact reads_bare (hbare n)
  | pushByte value =>
    exact reads_other rfl rfl rfl rfl (reads_u8 value.toUInt8).bind_pure
  | pushShort value =>
    exact reads_other rfl rfl rfl rfl (reads_u16 value.toUInt16).bind_pure
  | loadConstant i => exact reads_loadConstant (Instruction.encode_mem_forms _)
  | load slot i => exact reads_load (Instruction.encode_mem_forms _)
  | store slot i => exact reads_store (Instruction.encode_mem_forms _)
  | loadCell cell => cases cell <;> exact reads_bare rfl
  | storeCell cell => cases cell <;> exact reads_bare rfl
  | arith op => cases op <;> exact reads_bare rfl
  | pop => exact reads_bare rfl
  | dup => exact reads_bare rfl
  | swap => exact reads_bare rfl
  | negate => exact reads_bare rfl
  | arrayLength => exact reads_bare rfl
  | increment i amount => exact reads_increment (Instruction.encode_mem_forms _)
  | invoke dispatch method =>
    cases dispatch <;> exact reads_pooled rfl rfl rfl
  | newArray element =>
    refine reads_other rfl rfl rfl rfl ?_
    refine (reads_u8 element.arrayCode).bind_nil (f := fun code => _) ?_
    cases element <;> exact reads_pure _
  | getStatic field => exact reads_pooled rfl rfl rfl
  | putStatic field => exact reads_pooled rfl rfl rfl
  | getField field => exact reads_pooled rfl rfl rfl
  | putField field => exact reads_pooled rfl rfl rfl
  | new type => exact reads_pooled rfl rfl rfl
  | newRefArray element => exact reads_pooled rfl rfl rfl

theorem reads_encode_branch (distance : Int16) (b : Branch) :
    Reads read (b.encode distance) ((Operation.branch b).decoded distance) := by
  cases b with
  | ifZero test target => cases test <;> exact reads_jump rfl rfl distance
  | ifInts test target => cases test <;> exact reads_jump rfl rfl distance
  | ifRefs test target => cases test <;> exact reads_jump rfl rfl distance
  | goto target => exact reads_jump rfl rfl distance
  | leave value =>
    match value with
    | some .int => exact reads_bare rfl
    | some .ref => exact reads_bare rfl
    | none => exact reads_bare rfl

theorem reads_encode_operation (distance : Int16) (operation : Operation) :
    Reads read (operation.encode distance) (operation.decoded distance) := by
  cases operation with
  | plain instruction => exact reads_encode instruction
  | branch b => exact reads_encode_branch distance b

/-! ### Whole methods -/

/-- Reads operations up to the last byte, each with its offset. The first number bounds how many
there may be. -/
def disassembleFrom : Nat → Nat → List UInt8 → Option (List (Nat × Decoded))
  | _, _, [] => some []
  | 0, _, _ => none
  | bound + 1, offset, bytes => do
    let (operation, rest) ← read bytes
    let others ← disassembleFrom bound (offset + (bytes.length - rest.length)) rest
    return (offset, operation) :: others

def disassemble (bytes : List UInt8) : Option (List (Nat × Decoded)) :=
  disassembleFrom bytes.length 0 bytes

theorem disassembleFrom_append {bound offset : Nat} {bytes rest : List UInt8} {operation : Decoded}
    (hread : Reads read bytes operation) (hne : bytes ≠ []) :
    disassembleFrom (bound + 1) offset (bytes ++ rest) =
      (disassembleFrom bound (offset + bytes.length) rest).map ((offset, operation) :: ·) := by
  have hlength : (bytes ++ rest).length - rest.length = bytes.length := by simp
  rw [disassembleFrom]
  · rw [hread rest]
    simp only [Option.bind_eq_bind, Option.bind_some, hlength, Option.map_eq_bind]
    rfl
  · simp [hne]

end Decoded

end Classfile
