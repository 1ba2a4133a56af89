/-!
# Kinds of attributes

The attributes that can be produced, and the structures an attribute can belong to.
-/

namespace Classfile

inductive AttributeKind where
  | code
  | innerClasses
  | stackMapTable
  deriving DecidableEq

namespace AttributeKind

def name : AttributeKind → String
  | code => "Code"
  | innerClasses => "InnerClasses"
  | stackMapTable => "StackMapTable"

def ofName? : String → Option AttributeKind
  | "Code" => some code
  | "InnerClasses" => some innerClasses
  | "StackMapTable" => some stackMapTable
  | _ => none

end AttributeKind

inductive ParentKind where
  | type
  | field
  | method
  | code
  deriving DecidableEq

def ParentKind.inspect : ParentKind → String
  | type => "Class"
  | field => "Field"
  | method => "Method"
  | code => "Code"

end Classfile
