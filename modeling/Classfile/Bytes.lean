/-!
# Big-endian bytes

Words are written most significant byte first. A signed number is written as the word with the same
bits.
-/

namespace Classfile.Bytes

def be16 (word : UInt16) : List UInt8 :=
  [UInt8.ofNat (word.toNat / 0x100), UInt8.ofNat (word.toNat % 0x100)]

def be32 (word : UInt32) : List UInt8 :=
  [UInt8.ofNat (word.toNat / 0x1000000), UInt8.ofNat (word.toNat / 0x10000 % 0x100),
    UInt8.ofNat (word.toNat / 0x100 % 0x100), UInt8.ofNat (word.toNat % 0x100)]

@[simp]
theorem length_be16 (word : UInt16) : (be16 word).length = 2 := rfl

@[simp]
theorem length_be32 (word : UInt32) : (be32 word).length = 4 := rfl

end Classfile.Bytes
