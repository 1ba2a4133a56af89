import Classfile.Layout.Attribute

/-!
# Nested classes

A class lists the classes nested in it, each by the name of its own class file, its simple name and
its flags.
-/

namespace Classfile

structure InnerClassEntry where
  fileName : String
  name : String
  flags : Flags .nested
  deriving DecidableEq

structure InnerClasses where
  /-- The class that has the list. -/
  outer : String
  entries : Array InnerClassEntry
  deriving DecidableEq

namespace InnerClasses

def start (outer : String) : InnerClasses := ⟨outer, #[]⟩

def add (list : InnerClasses) (entry : InnerClassEntry) : InnerClasses :=
  { list with entries := list.entries.push entry }

def lowerEntry (outer : String) (entry : InnerClassEntry) : Action Pool Layout.InnerClass := do
  let inner ← Pool.addClass entry.fileName
  let outer ← Pool.addClass outer
  let name ← Pool.addUtf8 entry.name
  return ⟨inner, outer, name, entry.flags⟩

/-- The list as an attribute. -/
def lower (list : InnerClasses) : Action Pool Layout.Attribute := do
  let entries ← Action.traverse (lowerEntry list.outer) list.entries.toList
  (Layout.AttributeBody.innerClasses entries).toAttribute

end InnerClasses

end Classfile
