/-!
# Modified UTF-8

Class files store text by its UTF-16 units. A unit takes one byte from 1 to 0x7F, two bytes up to
0x7FF, three above. Zero takes two bytes, so no encoded text holds a zero byte.
-/

namespace Classfile.Text.Modified

/-- UTF-16 units of a character: itself, or a pair of surrogates above the basic plane. -/
def units (c : Char) : List UInt16 :=
  let n := c.toNat
  if n < 0x10000 then [UInt16.ofNat n]
  else
    let m := n - 0x10000
    [UInt16.ofNat (0xD800 + m / 0x400), UInt16.ofNat (0xDC00 + m % 0x400)]

def encodeUnit (unit : UInt16) : List UInt8 :=
  let n := unit.toNat
  if 1 ≤ n ∧ n ≤ 0x7F then [UInt8.ofNat n]
  else if n ≤ 0x7FF then [UInt8.ofNat (0xC0 + n / 0x40), UInt8.ofNat (0x80 + n % 0x40)]
  else
    [UInt8.ofNat (0xE0 + n / 0x1000), UInt8.ofNat (0x80 + n / 0x40 % 0x40),
      UInt8.ofNat (0x80 + n % 0x40)]

def encode (text : String) : List UInt8 :=
  text.toList.flatMap fun c => (units c).flatMap encodeUnit

end Classfile.Text.Modified
