import Std.Data.TreeMap

/-!
# Labels

A label names a place in a method body before the place is known. A supply hands labels out in
order, so no label comes twice from one supply.
-/

namespace Classfile

structure Label where
  id : Nat
  deriving DecidableEq

namespace Label

def start : Label := ⟨0⟩

def next (label : Label) : Label := ⟨label.id + 1⟩

def inspect (label : Label) : String := "l" ++ toString label.id

instance : Ord Label where
  compare := compareOn Label.id

instance : Std.TransOrd Label :=
  inferInstanceAs (Std.TransCmp (compareOn Label.id))

instance : Std.LawfulEqOrd Label where
  eq_of_compare {a b} h := by
    have hid : a.id = b.id := Std.compare_eq_iff_eq.mp h
    cases a; cases b; simp_all

end Label

structure LabelSupply where
  upcoming : Label
  deriving DecidableEq

namespace LabelSupply

def initial : LabelSupply := ⟨.start⟩

/-- The next label, and the supply of the labels after it. -/
def fresh (supply : LabelSupply) : Label × LabelSupply :=
  (supply.upcoming, ⟨supply.upcoming.next⟩)

def inspect (supply : LabelSupply) : String := "LabelGenerator(" ++ supply.upcoming.inspect ++ ")"

end LabelSupply

end Classfile
