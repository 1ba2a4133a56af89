import Classfile.Layout.Attribute

/-!
# Class files as they are written

Version, pool, flags, names, members and attributes, in the order of the format.
-/

namespace Classfile.Layout

structure Version where
  major : UInt16
  minor : UInt16
  deriving DecidableEq

namespace Version

def java14 : Version := ⟨58, 0⟩

/-- By the major number, then by the minor one. -/
instance : Ord Version where
  compare := compareLex (compareOn fun v => v.major.toNat) (compareOn fun v => v.minor.toNat)

/-- The minor number comes first. -/
instance : Emit Version where
  emit v := emit v.minor ++ emit v.major

end Version

structure Field where
  flags : Flags .field
  name : Index .utf8
  descriptor : Index .utf8
  attributes : List Attribute
  deriving DecidableEq

instance : Emit Field where
  emit f := emit f.flags ++ emit f.name ++ emit f.descriptor ++ emit f.attributes

structure Method where
  flags : Flags .method
  name : Index .utf8
  descriptor : Index .utf8
  attributes : List Attribute
  deriving DecidableEq

instance : Emit Method where
  emit m := emit m.flags ++ emit m.name ++ emit m.descriptor ++ emit m.attributes

structure ClassFile where
  version : Version
  pool : Pool
  flags : Flags .type
  this : Index .type
  parent : Index .type
  interfaces : List (Index .type)
  fields : List Field
  methods : List Method
  attributes : List Attribute

def magic : UInt32 := 0xCAFEBABE

instance : Emit ClassFile where
  emit c := emit magic ++ (emit c.version ++ Emission.check c.pool.count fun count =>
    emit count ++ (emit c.pool ++ (emit c.flags ++ (emit c.this ++ (emit c.parent ++
      (emit c.interfaces ++ (emit c.fields ++ (emit c.methods ++ emit c.attributes))))))))

end Classfile.Layout
