import Classfile.Action
import Classfile.Emission
import Classfile.Registry
import Classfile.Text.Modified

/-!
# Constant pool

A pool numbers its constants from 1 in the order of arrival and holds no constant twice. It only
grows, and adding a constant that is there gives the index it has. A constant made of others adds
those first; if the pool is full then, what was added before stays.
-/

namespace Classfile

/-- The kind of index under which a constant is handed out. -/
def Constant.kind : Constant → IndexKind
  | utf8 _ => .utf8
  | integer _ => .any
  | type _ => .type
  | string _ => .string
  | fieldRef _ _ => .fieldRef
  | methodRef _ _ => .methodRef
  | nameAndType _ _ => .nameAndType

abbrev Pool := Registry (fun constant : Constant => constant)

namespace Pool

variable {kind : IndexKind}

/-- One more than the largest index must fit 16 bits. -/
def capacity : Nat := 0xFFFE

/-- The number that precedes the pool in a class file. -/
def count (pool : Pool) : Except Error UInt16 := fitValue "constant_pool_count" (pool.size + 1)

/-- Indices start at 1. -/
def constant? (pool : Pool) (index : Index kind) : Option Constant :=
  match index.val.toNat with
  | 0 => none
  | i + 1 => pool.entries[i]?

def text? (pool : Pool) (index : Index .utf8) : Option String :=
  match pool.constant? index with
  | some (.utf8 text) => some text
  | _ => none

def memberDescriptor? (pool : Pool) (index : Index .nameAndType) : Option String :=
  match pool.constant? index with
  | some (.nameAndType _ descriptor) => pool.text? descriptor
  | _ => none

/-- Descriptor of the value of a class: array classes are named by it. -/
def descriptorOfClass (name : String) : String :=
  if name.toList.head? = some '[' then name else "L" ++ name ++ ";"

/-- Descriptor of the value that a constant stands for. Texts stand for none. -/
def descriptor? (pool : Pool) (index : Index kind) : Option String :=
  match pool.constant? index with
  | none | some (.utf8 _) => none
  | some (.integer _) => some "I"
  | some (.string _) => some "Ljava/lang/String;"
  | some (.type name) => (pool.text? name).map descriptorOfClass
  | some (.nameAndType _ descriptor) => pool.text? descriptor
  | some (.fieldRef _ member) | some (.methodRef _ member) => pool.memberDescriptor? member

/-- The index at which the entry at a position is found. -/
def indexAt (position : Nat) : Index kind := ⟨UInt16.ofNat (position + 1)⟩

/-- The constants in the order of their indices, each with its index. -/
def numbered (pool : Pool) : Array (Index .any × Constant) :=
  pool.entries.mapIdx fun position constant => (indexAt position, constant)

/-- Index of a constant, which is added if it is not there. -/
def add (constant : Constant) : Action Pool (Index constant.kind) := fun pool =>
  match h : pool.find? constant with
  | some position => ⟨.ok (indexAt position), pool, []⟩
  | none =>
    let position := pool.size
    if position < capacity then
      ⟨.ok (indexAt position), pool.push constant h, [.constantAdded (position + 1) constant]⟩
    else ⟨.error (.poolFull constant), pool, []⟩

def addUtf8 (text : String) : Action Pool (Index .utf8) := add (.utf8 text)

def addInteger (value : Int32) : Action Pool (Index .any) := add (.integer value)

def addClass (name : String) : Action Pool (Index .type) := do
  let name ← addUtf8 name
  add (.type name)

def addString (text : String) : Action Pool (Index .string) := do
  let text ← addUtf8 text
  add (.string text)

def addNameAndType (name descriptor : String) : Action Pool (Index .nameAndType) := do
  let name ← addUtf8 name
  let descriptor ← addUtf8 descriptor
  add (.nameAndType name descriptor)

def addFieldRef (owner name descriptor : String) : Action Pool (Index .fieldRef) := do
  let owner ← addClass owner
  let member ← addNameAndType name descriptor
  add (.fieldRef owner member)

def addMethodRef (owner name descriptor : String) : Action Pool (Index .methodRef) := do
  let owner ← addClass owner
  let member ← addNameAndType name descriptor
  add (.methodRef owner member)

end Pool

instance : Emit Constant where
  emit constant := emit constant.tag ++ match constant with
    | .utf8 text =>
      let encoded := Text.Modified.encode text
      Emission.check (fitLength16 "utf8 constant" encoded.length) fun length =>
        emit length ++ Emission.bytes encoded
    | .integer value => emit value
    | .type name => emit name
    | .string text => emit text
    | .fieldRef owner member => emit owner ++ emit member
    | .methodRef owner member => emit owner ++ emit member
    | .nameAndType name descriptor => emit name ++ emit descriptor

/-- The entries alone; the count stands before them and is written apart. -/
instance : Emit Pool where
  emit pool := Emission.concat (pool.toList.map emit)

end Classfile
