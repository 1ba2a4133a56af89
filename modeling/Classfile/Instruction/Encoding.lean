import Classfile.Emission

/-!
# Bytes of instructions

An instruction is written piece by piece: the opcode, with a prefix if need be, and then each of the
operands. Instructions on a local variable, a constant or an increment have forms of different
length, and the shortest form that holds the operands is taken. A branch with a target is an opcode
followed by the distance to the target, counted from the opcode.
-/

namespace Classfile

def Slot.loadShort : Slot → UInt8
  | .int => 0x1A
  | .ref => 0x2A

def Slot.loadLong : Slot → UInt8
  | .int => 0x15
  | .ref => 0x19

def Slot.storeShort : Slot → UInt8
  | .int => 0x3B
  | .ref => 0x4B

def Slot.storeLong : Slot → UInt8
  | .int => 0x36
  | .ref => 0x3A

/-- Widens the operand of the opcode that follows it. -/
def wide : UInt8 := 0xC4

/-- The first four local variables have opcodes of their own. -/
def localPieces (short long : UInt8) (i : UInt16) : List (List UInt8) :=
  if i.toNat ≤ 3 then [[short + i.toUInt8]]
  else if i.toNat ≤ 0xFF then [[long], [i.toUInt8]]
  else [[wide], [long], Bytes.be16 i]

def Cell.loadOpcode : Cell → UInt8
  | .int => 0x2E
  | .ref => 0x32
  | .byte => 0x33

def Cell.storeOpcode : Cell → UInt8
  | .int => 0x4F
  | .ref => 0x53
  | .byte => 0x54

def Arith.opcode : Arith → UInt8
  | .add => 0x60
  | .sub => 0x64
  | .mul => 0x68
  | .div => 0x6C
  | .rem => 0x70
  | .shl => 0x78
  | .shr => 0x7A

def Dispatch.opcode : Dispatch → UInt8
  | .virtual => 0xB6
  | .special => 0xB7
  | .static => 0xB8

namespace Instruction

/-- What is written of an instruction, one write after the other. -/
def pieces : Instruction → List (List UInt8)
  | smallInt n => [[0x02 + UInt8.ofNat n.val]]
  | pushByte value => [[0x10], [value.toUInt8]]
  | pushShort value => [[0x11], Bytes.be16 value.toUInt16]
  | loadConstant i =>
    if i.val.toNat ≤ 0xFF then [[0x12], [i.val.toUInt8]] else [[0x13], Bytes.be16 i.val]
  | load slot i => localPieces slot.loadShort slot.loadLong i
  | store slot i => localPieces slot.storeShort slot.storeLong i
  | loadCell cell => [[cell.loadOpcode]]
  | storeCell cell => [[cell.storeOpcode]]
  | pop => [[0x57]]
  | dup => [[0x59]]
  | swap => [[0x5F]]
  | arith op => [[op.opcode]]
  | negate => [[0x74]]
  | increment i amount =>
    if i.toNat ≤ 0xFF ∧ -0x80 ≤ amount.toInt ∧ amount.toInt ≤ 0x7F then
      [[0x84], [i.toUInt8], [amount.toInt8.toUInt8]]
    else [[wide], [0x84], Bytes.be16 i, Bytes.be16 amount.toUInt16]
  | getStatic field => [[0xB2], Bytes.be16 field.val]
  | putStatic field => [[0xB3], Bytes.be16 field.val]
  | getField field => [[0xB4], Bytes.be16 field.val]
  | putField field => [[0xB5], Bytes.be16 field.val]
  | invoke dispatch method => [[dispatch.opcode], Bytes.be16 method.val]
  | new type => [[0xBB], Bytes.be16 type.val]
  | newArray element => [[0xBC], [element.arrayCode]]
  | newRefArray element => [[0xBD], Bytes.be16 element.val]
  | arrayLength => [[0xBE]]

instance : Emit Instruction := ⟨fun instruction => ⟨instruction.pieces, none⟩⟩

def encode (instruction : Instruction) : List UInt8 := instruction.pieces.flatten

end Instruction

/-- Place of a comparison among the opcodes of its family. -/
def Comparison.rank : Comparison → UInt8
  | .eq => 0
  | .ne => 1
  | .lt => 2
  | .ge => 3
  | .gt => 4
  | .le => 5

def Sameness.rank : Sameness → UInt8
  | .eq => 0
  | .ne => 1

def Branch.opcode : Branch → UInt8
  | ifZero test _ => 0x99 + test.rank
  | ifInts test _ => 0x9F + test.rank
  | ifRefs test _ => 0xA5 + test.rank
  | goto _ => 0xA7
  | leave (some .int) => 0xAC
  | leave (some .ref) => 0xB0
  | leave none => 0xB1

/-- Bytes of a branch whose target lies at the given distance. -/
def Branch.encode (distance : Int16) (b : Branch) : List UInt8 :=
  match b.target? with
  | some _ => b.opcode :: Bytes.be16 distance.toUInt16
  | none => [b.opcode]

def Operation.encode (distance : Int16) : Operation → List UInt8
  | plain instruction => instruction.encode
  | branch b => b.encode distance

/-- Number of bytes, which no distance changes. -/
def Operation.width : Operation → Nat
  | plain instruction => instruction.encode.length
  | branch b => if b.target?.isSome then 3 else 1

theorem Operation.length_encode (distance : Int16) (op : Operation) :
    (op.encode distance).length = op.width := by
  cases op with
  | plain => rfl
  | branch b =>
    cases h : b.target? <;> simp [encode, Branch.encode, width, h]

end Classfile
