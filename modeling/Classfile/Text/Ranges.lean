/-!
# Ranges of characters

A set of characters as a list of ranges, each by its first and its last code point.
-/

namespace Classfile.Text

abbrev Ranges := List (Nat × Nat)

def Ranges.covers (ranges : Ranges) (c : Char) : Bool :=
  ranges.any fun (first, last) => first ≤ c.toNat && c.toNat ≤ last

end Classfile.Text
