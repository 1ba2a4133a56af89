import Classfile.Bytes
import Classfile.Error

/-!
# Emissions

What a value writes: chunks of bytes in order, and possibly an error that stops the writing after
them. A length is checked when its field is reached, so all chunks before it are written first. A
writer with bounded room takes the chunks one by one and fails at the first that does not fit.
-/

namespace Classfile

structure Emission where
  chunks : List (List UInt8)
  stop : Option Error
  deriving DecidableEq

namespace Emission

def nothing : Emission := ⟨[], none⟩

def bytes (chunk : List UInt8) : Emission := ⟨[chunk], none⟩

def fail (e : Error) : Emission := ⟨[], some e⟩

/-- Nothing follows an error. -/
def append (a b : Emission) : Emission :=
  match a.stop with
  | none => ⟨a.chunks ++ b.chunks, b.stop⟩
  | some _ => a

instance : Append Emission := ⟨append⟩

def concat (parts : List Emission) : Emission := parts.foldr (· ++ ·) nothing

/-- Goes on with a value that is there, or stops with the error. -/
def check {α : Type} (value : Except Error α) (next : α → Emission) : Emission :=
  match value with
  | .ok a => next a
  | .error e => fail e

/-- All bytes written, also those before an error. -/
def written (e : Emission) : List UInt8 := e.chunks.flatten

def outcome (e : Emission) : Except Error Unit :=
  match e.stop with
  | none => .ok ()
  | some error => .error error

def toBytes (e : Emission) : Except Error (List UInt8) :=
  match e.stop with
  | none => .ok e.written
  | some error => .error error

/-- Room left after the chunks, if each one fits. -/
def fit : Nat → List (List UInt8) → Option Nat
  | room, [] => some room
  | room, chunk :: rest => if chunk.length ≤ room then fit (room - chunk.length) rest else none

/-- Writes where there is room for so many bytes, and returns the room left. -/
def writeWithin (room : Nat) (e : Emission) : Except Error Nat :=
  match fit room e.chunks with
  | none => .error (.write "failed to write whole buffer")
  | some left =>
    match e.stop with
    | none => .ok left
    | some error => .error error

end Emission

/-- Values with a fixed form in a class file. -/
class Emit (α : Type) where
  emit : α → Emission

export Emit (emit)

namespace Emission

instance : Emit UInt8 := ⟨fun byte => bytes [byte]⟩

instance : Emit UInt16 := ⟨fun word => bytes (Bytes.be16 word)⟩

instance : Emit UInt32 := ⟨fun word => bytes (Bytes.be32 word)⟩

instance : Emit Int8 := ⟨fun n => emit n.toUInt8⟩

instance : Emit Int16 := ⟨fun n => emit n.toUInt16⟩

instance : Emit Int32 := ⟨fun n => emit n.toUInt32⟩

/-- A sequence is preceded by its length, which has 16 bits. -/
instance {α : Type} [Emit α] : Emit (List α) :=
  ⟨fun items => check (fitLength16 "sequence" items.length) fun length =>
    emit length ++ concat (items.map emit)⟩

instance {kind : IndexKind} : Emit (Index kind) := ⟨fun index => emit index.val⟩

instance {owner : FlagOwner} : Emit (Flags owner) := ⟨fun flags => emit flags.bits⟩

end Emission

end Classfile
