import Classfile.Body.Lowering
import Classfile.InnerClasses

/-!
# Attributes

Each kind of attribute belongs to one kind of parent: a body to a method, a list of nested classes
to a class, a stack map to a body. A new attribute takes what it needs from its parent.
-/

namespace Classfile

/-- What an attribute is attached to. -/
inductive Parent where
  | type (name : String)
  | field
  | method (type : MethodType) (flags : Flags .method) (owner : String)
  | code
  deriving DecidableEq

def Parent.kind : Parent → ParentKind
  | type _ => .type
  | field => .field
  | method .. => .method
  | code => .code

inductive Attribute where
  | code (body : Body)
  | innerClasses (list : InnerClasses)
  | stackMapTable (frames : Array Frame)

namespace Attribute

def kind : Attribute → AttributeKind
  | code _ => .code
  | innerClasses _ => .innerClasses
  | stackMapTable _ => .stackMapTable

def create : AttributeKind → Parent → Except Error Attribute
  | .code, .method type flags owner => (Body.start type flags owner).map code
  | .innerClasses, .type name => .ok (innerClasses (.start name))
  | .stackMapTable, .code => .ok (stackMapTable #[])
  | kind, parent => .error (.illegalAttachment kind parent.kind)

/-- Creates an attribute for a parent that is about to hold it. -/
def attach {σ : Type} (kind : AttributeKind) (parent : Parent) : Action σ Attribute := do
  let created ← Action.ofExcept (create kind parent)
  Action.report (.attributeAdded kind parent.kind)
  return created

def lower : Action (Attribute × Pool) Layout.Attribute := fun (a, pool) =>
  match a with
  | code body =>
    match Body.lowerAttribute (body, pool) with
    | ⟨result, (body, pool), events⟩ => ⟨result, (code body, pool), events⟩
  | innerClasses list => Action.onSnd list.lower (a, pool)
  | stackMapTable frames => Action.onSnd (StackMap.lower frames) (a, pool)

end Attribute

namespace Body

/-- A body holds no attribute but a stack map. -/
def hold (body : Body) : Attribute → Body
  | .stackMapTable frames => { body with table := some frames }
  | _ => body

/-- Attaches a new attribute in place of one of its kind. -/
def attach (kind : AttributeKind) : Action Body Unit := do
  let created ← Attribute.attach kind .code
  Action.modify fun body => body.hold created

end Body

end Classfile
