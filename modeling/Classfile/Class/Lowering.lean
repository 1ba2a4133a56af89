import Classfile.Class.Basic

/-!
# Class files of classes

Lowering adds to the pool whatever the class refers to, in a fixed order, and only then copies the
pool into the class file. A class can be lowered again and again.
-/

namespace Classfile.Class

/-- The methods and the pool change together. -/
def lowerMethods : Action Class (List Layout.Method) := fun c =>
  let outcome := Action.traverseStates Method.lower (c.methods.toList, c.pool)
  let same : (outcome.state.1.toArray).map Method.key = c.methods.entries.map Method.key := by
    have h := Action.map_traverseStates Method.key Method.key_lower c.methods.toList c.pool
    rw [List.map_toArray, h, Registry.toList, ← Array.toList_map, Array.toArray_toList]
  ⟨outcome.result, { c with
    methods := c.methods.replace outcome.state.1.toArray same
    pool := outcome.state.2 }, outcome.events⟩

def lowerAttributes (c : Class) : Action Pool (List Layout.Attribute) :=
  match c.innerClasses with
  | none => return []
  | some list => return [← list.lower]

/-- Names of the class and what it extends, then members, then attributes. -/
def lower : Action Class Layout.ClassFile := do
  let this ← onPool (Pool.addClass (← Action.gets name))
  let parent ← onPool (Pool.addClass (← Action.gets Class.parent))
  let interfaces ← onPool (Action.traverse Pool.addClass
    (← Action.gets fun c => c.interfaces.toList))
  let fields ← onPool (Action.traverse Field.lower (← Action.gets fun c => c.fields.toList))
  let methods ← lowerMethods
  let attributes ← onPool (← Action.gets lowerAttributes)
  Action.gets fun c =>
    { version := c.version
      pool := c.pool
      flags := c.flags
      this, parent, interfaces, fields, methods, attributes }

/-- The bytes of the class file. -/
def generate : Action Class (List UInt8) := do
  let file ← lower
  let bytes ← Action.ofExcept (emit file).toBytes
  let name ← Action.gets name
  Action.report (.classWritten name file.pool.size file.fields.length file.methods.length
    bytes.length)
  return bytes

end Classfile.Class
