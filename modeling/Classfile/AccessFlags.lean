/-!
# Access flags

A class, a field, a method and an entry for a nested class each have a set of flags, kept in one
16-bit word. Each owner knows its own names for the bits, and a set holds known bits only.
-/

namespace Classfile

inductive FlagOwner where
  | type
  | field
  | method
  | nested
  deriving DecidableEq

namespace FlagOwner

/-- The flags of an owner, in the order in which a set names them. -/
def names : FlagOwner → List (String × UInt16)
  | type =>
    [("PUBLIC", 0x0001), ("FINAL", 0x0010), ("SUPER", 0x0020), ("INTERFACE", 0x0200),
      ("ABSTRACT", 0x0400), ("SYNTHETIC", 0x1000), ("ANNOTATION", 0x2000), ("ENUM", 0x4000),
      ("MODULE", 0x8000)]
  | field =>
    [("PUBLIC", 0x0001), ("PRIVATE", 0x0002), ("PROTECTED", 0x0004), ("STATIC", 0x0008),
      ("FINAL", 0x0010), ("VOLATILE", 0x0040), ("TRANSIENT", 0x0080), ("SYNTHETIC", 0x1000),
      ("ENUM", 0x4000)]
  | method =>
    [("PUBLIC", 0x0001), ("PRIVATE", 0x0002), ("PROTECTED", 0x0004), ("STATIC", 0x0008),
      ("FINAL", 0x0010), ("SYNCHRONIZED", 0x0020), ("BRIDGE", 0x0040), ("VARARGS", 0x0080),
      ("NATIVE", 0x0100), ("ABSTRACT", 0x0400), ("STRICT", 0x0800), ("SYNTHETIC", 0x1000)]
  | nested =>
    [("PUBLIC", 0x0001), ("PRIVATE", 0x0002), ("PROTECTED", 0x0004), ("STATIC", 0x0008),
      ("FINAL", 0x0010), ("INTERFACE", 0x0200), ("ABSTRACT", 0x0400), ("SYNTHETIC", 0x1000),
      ("ANNOTATION", 0x2000), ("ENUM", 0x4000), ("SUPER", 0x0020), ("MODULE", 0x8000)]

/-- All bits that have a name. -/
def mask (owner : FlagOwner) : UInt16 :=
  owner.names.foldl (fun bits (_, bit) => bits ||| bit) 0

end FlagOwner

structure Flags (owner : FlagOwner) where
  bits : UInt16
  known : bits &&& owner.mask = bits
  deriving DecidableEq

namespace Flags

variable {owner : FlagOwner}

/-- Drops the bits without a name. -/
def truncate (owner : FlagOwner) (bits : UInt16) : Flags owner :=
  ⟨bits &&& owner.mask, by rw [UInt16.and_assoc, UInt16.and_self]⟩

/-- Refuses bits without a name. -/
def ofBits? (owner : FlagOwner) (bits : UInt16) : Option (Flags owner) :=
  if known : bits &&& owner.mask = bits then some ⟨bits, known⟩ else none

def empty : Flags owner := truncate owner 0

def all : Flags owner := truncate owner owner.mask

def complement (a : Flags owner) : Flags owner := truncate owner (~~~a.bits)

def union (a b : Flags owner) : Flags owner := truncate owner (a.bits ||| b.bits)

def inter (a b : Flags owner) : Flags owner := truncate owner (a.bits &&& b.bits)

def diff (a b : Flags owner) : Flags owner := truncate owner (a.bits &&& ~~~b.bits)

def symmDiff (a b : Flags owner) : Flags owner := truncate owner (a.bits ^^^ b.bits)

def contains (a b : Flags owner) : Bool := a.bits &&& b.bits == b.bits

def intersects (a b : Flags owner) : Bool := a.bits &&& b.bits != 0

def isEmpty (a : Flags owner) : Bool := a.bits == 0

def isAll (a : Flags owner) : Bool := a.bits == owner.mask

def inspect (a : Flags owner) : String :=
  match owner.names.filter fun (_, bit) => a.bits &&& bit == bit with
  | [] => "(empty)"
  | set => " | ".intercalate (set.map Prod.fst)

/-- The flags under which an enclosing class lists a class with these flags. -/
def toNested (a : Flags .type) : Flags .nested := truncate .nested a.bits

/-- A method without receiver. -/
def isStatic (a : Flags .method) : Bool := a.contains (truncate .method 0x0008)

end Flags

end Classfile
