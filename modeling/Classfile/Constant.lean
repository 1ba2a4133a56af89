import Classfile.Text.Inspect
import Std.Data.TreeMap

/-!
# Constants

The entries of a constant pool, and the indices by which they refer to each other. An index knows
the kind of entry it points to; `any` is for those that may point to every kind. Constants are
ordered by their parts, which gives the pool its search tree.
-/

namespace Classfile

inductive IndexKind where
  | any
  | utf8
  | string
  | nameAndType
  | type
  | fieldRef
  | methodRef
  deriving DecidableEq

structure Index (kind : IndexKind) where
  val : UInt16
  deriving DecidableEq

namespace Index

variable {kind : IndexKind}

theorem eq_iff {a b : Index kind} : a = b ↔ a.val = b.val := by
  cases a; cases b; simp

def untyped (index : Index kind) : Index .any := ⟨index.val⟩

def inspect (index : Index kind) : String :=
  let plain := Inspect.applied "ConstantIndex" [toString index.val]
  match kind with
  | .any => plain
  | .utf8 => Inspect.applied "Utf8ConstantIndex" [plain]
  | .string => Inspect.applied "StringConstantIndex" [plain]
  | .nameAndType => Inspect.applied "NameAndTypeConstantIndex" [plain]
  | .type => Inspect.applied "ClassConstantIndex" [plain]
  | .fieldRef => Inspect.applied "FieldRefConstantIndex" [plain]
  | .methodRef => Inspect.applied "MethodRefConstantIndex" [plain]

end Index

inductive Constant where
  | utf8 (text : String)
  | integer (value : Int32)
  | type (name : Index .utf8)
  | string (text : Index .utf8)
  | fieldRef (owner : Index .type) (member : Index .nameAndType)
  | methodRef (owner : Index .type) (member : Index .nameAndType)
  | nameAndType (name descriptor : Index .utf8)
  deriving DecidableEq

namespace Constant

def inspect : Constant → String
  | utf8 text => Inspect.applied "Utf8" [Inspect.quoted text]
  | integer value => Inspect.applied "Integer" [toString value.toInt]
  | type name => Inspect.applied "Class" [name.inspect]
  | string text => Inspect.applied "String" [text.inspect]
  | fieldRef owner member => Inspect.applied "FieldRef" [owner.inspect, member.inspect]
  | methodRef owner member => Inspect.applied "MethodRef" [owner.inspect, member.inspect]
  | nameAndType name descriptor =>
    Inspect.record "NameAndType" [("name", name.inspect), ("descriptor", descriptor.inspect)]

/-- Number that marks the kind of a constant in a class file. -/
def tag : Constant → UInt8
  | utf8 _ => 1
  | integer _ => 3
  | type _ => 7
  | string _ => 8
  | fieldRef _ _ => 9
  | methodRef _ _ => 10
  | nameAndType _ _ => 12

/-- The number of an `integer`, the first index of a constant made of indices. -/
def first : Constant → Int
  | utf8 _ => 0
  | integer value => value.toInt
  | type name => name.val.toNat
  | string text => text.val.toNat
  | fieldRef owner _ => owner.val.toNat
  | methodRef owner _ => owner.val.toNat
  | nameAndType name _ => name.val.toNat

def second : Constant → Nat
  | fieldRef _ member => member.val.toNat
  | methodRef _ member => member.val.toNat
  | nameAndType _ descriptor => descriptor.val.toNat
  | _ => 0

def text : Constant → String
  | utf8 text => text
  | _ => ""

instance : Ord Constant where
  compare := compareLex (compareOn fun c => c.tag.toNat)
    (compareLex (compareOn first) (compareLex (compareOn second) (compareOn text)))

instance : Std.TransOrd Constant :=
  inferInstanceAs (Std.TransCmp (compareLex (compareOn fun c : Constant => c.tag.toNat)
    (compareLex (compareOn first) (compareLex (compareOn second) (compareOn text)))))

/-- A constant is given by its tag and its parts. -/
theorem eq_of_parts {a b : Constant} (htag : a.tag = b.tag) (hfirst : a.first = b.first)
    (hsecond : a.second = b.second) (htext : a.text = b.text) : a = b := by
  cases a <;> cases b <;>
    simp_all [tag, first, second, text, Index.eq_iff, Int32.toInt_inj, Int.natCast_inj,
      UInt16.toNat_inj]

instance : Std.LawfulEqOrd Constant where
  eq_of_compare h := by
    simp only [compare, compareLex_eq_eq] at h
    obtain ⟨htag, hfirst, hsecond, htext⟩ := h
    exact eq_of_parts (UInt8.toNat_inj.mp (Std.compare_eq_iff_eq.mp htag))
      (Std.compare_eq_iff_eq.mp hfirst) (Std.compare_eq_iff_eq.mp hsecond)
      (Std.compare_eq_iff_eq.mp htext)

end Constant

end Classfile
