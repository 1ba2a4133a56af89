import Classfile.Text.Inspect

/-!
# Types of fields and methods

A field type is an element, either a base type or a class, or an array of elements. The dimensions
of an array are counted in a word of 64 bits, and the count wraps around. A method type lists the
parameters and the result, which `void` methods lack. The written form of a type is its descriptor.
-/

namespace Classfile

inductive BaseType where
  | byte
  | char
  | double
  | float
  | int
  | long
  | short
  | boolean
  deriving DecidableEq

namespace BaseType

def all : List BaseType := [byte, char, double, float, int, long, short, boolean]

def letter : BaseType → Char
  | byte => 'B'
  | char => 'C'
  | double => 'D'
  | float => 'F'
  | int => 'I'
  | long => 'J'
  | short => 'S'
  | boolean => 'Z'

def ofLetter? (c : Char) : Option BaseType :=
  all.find? fun t => t.letter == c

/-- The verifier sees values of these types as `int`. -/
def isIntLike : BaseType → Bool
  | int | boolean | byte | char | short => true
  | double | float | long => false

/-- Operand that names the type in the instruction creating a primitive array. -/
def arrayCode : BaseType → UInt8
  | boolean => 4
  | char => 5
  | float => 6
  | double => 7
  | byte => 8
  | short => 9
  | int => 10
  | long => 11

def inspect : BaseType → String
  | byte => "Byte"
  | char => "Char"
  | double => "Double"
  | float => "Float"
  | int => "Int"
  | long => "Long"
  | short => "Short"
  | boolean => "Boolean"

end BaseType

inductive Element where
  | base (type : BaseType)
  | object (name : String)
  deriving DecidableEq

namespace Element

def descriptor : Element → List Char
  | base type => [type.letter]
  | object name => 'L' :: name.toList ++ [';']

def inspect : Element → String
  | base type => type.inspect
  | object name => Inspect.quoted name

end Element

inductive FieldType where
  | bare (element : Element)
  /-- An array with the given number of dimensions beyond the first. -/
  | nested (extra : UInt64) (element : Element)
  deriving DecidableEq

namespace FieldType

def base (type : BaseType) : FieldType := bare (.base type)

/-- The name is taken as it is, also if no descriptor can be read back with it. -/
def object (name : String) : FieldType := bare (.object name)

def int : FieldType := base .int

def string : FieldType := object "java/lang/String"

def element : FieldType → Element
  | bare element => element
  | nested _ element => element

/-- The number of dimensions, which is none again for an array with one more than a word counts. -/
def dims : FieldType → UInt64
  | bare _ => 0
  | nested extra _ => extra + 1

/-- The type with so many dimensions, as far as they can be counted. -/
def ofDims : Nat → Element → FieldType
  | 0, element => bare element
  | extra + 1, element => nested (.ofNat extra) element

def array : FieldType → FieldType
  | bare element => nested 0 element
  | nested extra element => nested (extra + 1) element

/-- What the elements of an array are; other types have none. -/
def component? : FieldType → Option FieldType
  | bare _ => none
  | nested extra element =>
    some (if extra = 0 then bare element else nested (extra - 1) element)

/-- The base type of a value that is no reference. -/
def base? : FieldType → Option BaseType
  | bare (.base type) => some type
  | _ => none

def descriptor (type : FieldType) : List Char :=
  List.replicate type.dims.toNat '[' ++ type.element.descriptor

def render (type : FieldType) : String := String.ofList type.descriptor

/-- Name under which a class constant refers to a reference type: arrays go by their descriptor. -/
def className : FieldType → String
  | bare (.object name) => name
  | type => type.render

def inspectReference : FieldType → String
  | bare element => Inspect.applied "Object" [element.inspect]
  | nested extra element =>
    let sort := match element with
      | .base _ => "PrimitiveArray"
      | .object _ => "ObjectArray"
    Inspect.applied sort [Inspect.record "ArrayType"
      [("additional_dimensions", toString extra), ("element_type", element.inspect)]]

def inspect (type : FieldType) : String :=
  match type.base? with
  | some base => Inspect.applied "Base" [base.inspect]
  | none => Inspect.applied "Ref" [type.inspectReference]

end FieldType

structure MethodType where
  parameters : List FieldType
  result : Option FieldType
  deriving DecidableEq

namespace MethodType

def descriptor (type : MethodType) : List Char :=
  '(' :: type.parameters.flatMap FieldType.descriptor ++
    ')' :: (match type.result with
      | none => ['V']
      | some result => result.descriptor)

def render (type : MethodType) : String := String.ofList type.descriptor

def inspect (type : MethodType) : String :=
  Inspect.record "MethodDescriptor"
    [("parameters", Inspect.listed (type.parameters.map FieldType.inspect)),
      ("return_type", match type.result with
        | none => "None"
        | some result => Inspect.applied "Some" [result.inspect])]

end MethodType

end Classfile
