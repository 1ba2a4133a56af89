import Classfile.Attribute
import Classfile.Layout.ClassFile

/-!
# Members of a class

Fields and methods are told apart by name and descriptor. A method may have a body; a field has no
attributes.
-/

namespace Classfile

structure MemberKey where
  name : String
  descriptor : String
  deriving DecidableEq

namespace MemberKey

instance : Ord MemberKey where
  compare := compareLex (compareOn name) (compareOn descriptor)

instance : Std.TransOrd MemberKey :=
  inferInstanceAs (Std.TransCmp (compareLex (compareOn name) (compareOn descriptor)))

instance : Std.LawfulEqOrd MemberKey where
  eq_of_compare {a b} h := by
    obtain ⟨hname, hdescriptor⟩ := compareLex_eq_eq.mp h
    have hname : a.name = b.name := Std.compare_eq_iff_eq.mp hname
    have hdescriptor : a.descriptor = b.descriptor := Std.compare_eq_iff_eq.mp hdescriptor
    cases a; cases b; simp_all

end MemberKey

structure Field where
  name : String
  type : FieldType
  flags : Flags .field
  deriving DecidableEq

namespace Field

def key (field : Field) : MemberKey := ⟨field.name, field.type.render⟩

/-- No kind of attribute belongs to a field. -/
def attach {σ : Type} (kind : AttributeKind) : Action σ Unit := do
  let _ ← Attribute.attach kind .field

def lower (field : Field) : Action Pool Layout.Field := do
  let name ← Pool.addUtf8 field.name
  let descriptor ← Pool.addUtf8 field.type.render
  return ⟨field.flags, name, descriptor, []⟩

end Field

structure Method where
  name : String
  type : MethodType
  flags : Flags .method
  /-- The class that declares the method. -/
  owner : String
  body : Option Body

namespace Method

def key (method : Method) : MemberKey := ⟨method.name, method.type.render⟩

def parent (method : Method) : Parent := .method method.type method.flags method.owner

/-- A method holds no attribute but a body. -/
def hold (body : Option Body) : Attribute → Option Body
  | .code fresh => some fresh
  | _ => body

/-- Attaches a new attribute in place of one of its kind. The state is the method's body. -/
def attach (method : Method) (kind : AttributeKind) : Action (Option Body) Unit := do
  let created ← Attribute.attach kind method.parent
  Action.modify fun body => hold body created

def lowerBody : Action (Option Body × Pool) (List Layout.Attribute) := fun (body, pool) =>
  match body with
  | none => ⟨.ok [], (none, pool), []⟩
  | some body =>
    match Body.lowerAttribute (body, pool) with
    | ⟨result, (body, pool), events⟩ => ⟨result.map ([·]), (some body, pool), events⟩

def lowerParts (method : Method) : Action (Option Body × Pool) Layout.Method := do
  let name ← Action.onSnd (Pool.addUtf8 method.name)
  let descriptor ← Action.onSnd (Pool.addUtf8 method.type.render)
  let attributes ← lowerBody
  return ⟨method.flags, name, descriptor, attributes⟩

/-- Lowering changes nothing in a method but its body. -/
def lower : Action (Method × Pool) Layout.Method := fun (method, pool) =>
  match method.lowerParts (method.body, pool) with
  | ⟨result, (body, pool), events⟩ => ⟨result, ({ method with body }, pool), events⟩

theorem key_lower (method : Method) (pool : Pool) :
    (lower (method, pool)).state.1.key = method.key := rfl

end Method

end Classfile
