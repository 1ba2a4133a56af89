import Classfile.Text.Extending
import Classfile.Text.Unassigned

/-!
# Visible characters

A diagnostic shows a character as it is only if the character has a shape of its own. Controls,
format characters, private-use characters, fillers and every separator but the space have none, nor
have code points without a character. An extending mark takes the shape of what stands before it.
-/

namespace Classfile.Text

/-- Controls, format characters, separators and private use, without the space. -/
def shapeless : Ranges :=
  [(0x0, 0x1F), (0x7F, 0xA0), (0xAD, 0xAD), (0x600, 0x605), (0x61C, 0x61C), (0x6DD, 0x6DD),
    (0x70F, 0x70F), (0x890, 0x891), (0x8E2, 0x8E2), (0x1680, 0x1680), (0x180E, 0x180E),
    (0x2000, 0x200F), (0x2028, 0x202F), (0x205F, 0x2064), (0x2066, 0x206F), (0x3000, 0x3000),
    (0xE000, 0xF8FF), (0xFEFF, 0xFEFF), (0xFFF9, 0xFFFB), (0x110BD, 0x110BD), (0x110CD, 0x110CD),
    (0x13430, 0x1343F), (0x1BCA0, 0x1BCA3), (0x1D173, 0x1D17A), (0xE0001, 0xE0001),
    (0xE0020, 0xE007F), (0xF0000, 0xFFFFD), (0x100000, 0x10FFFD)]

/-- Letters that stand for an absent part of a Hangul syllable. -/
def fillers : Ranges :=
  [(0x115F, 0x1160), (0x3164, 0x3164), (0xFFA0, 0xFFA0)]

/-- Printable ASCII is decided first; the tables are for the rest. -/
def isVisible (c : Char) : Bool :=
  if c.toNat < 0x7F then 0x20 ≤ c.toNat
  else [shapeless, fillers, extending, unassigned].all fun ranges => !ranges.covers c

end Classfile.Text
