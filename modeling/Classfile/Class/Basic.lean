import Classfile.Class.Member

/-!
# Classes

A class under construction: its names and flags, its members, and the pool that all of them share.
No two fields and no two methods have the same name and descriptor.
-/

namespace Classfile

structure Class where
  name : String
  parent : String
  flags : Flags .type
  version : Layout.Version
  interfaces : Registry (fun name : String => name)
  fields : Registry Field.key
  methods : Registry Method.key
  innerClasses : Option InnerClasses
  pool : Pool

namespace Class

variable {α : Type}

def start (name parent : String) (flags : Flags .type) : Class where
  name := name
  parent := parent
  flags := flags
  version := .java14
  interfaces := .empty
  fields := .empty
  methods := .empty
  innerClasses := none
  pool := .empty

/-- An interface that is there already is not added again. -/
def addInterface (c : Class) (name : String) : Class :=
  if fresh : c.interfaces.find? name = none then
    { c with interfaces := c.interfaces.push name fresh }
  else c

def field? (c : Class) (name : String) (type : FieldType) : Option Field :=
  c.fields.get? ⟨name, type.render⟩

def method? (c : Class) (name : String) (type : MethodType) : Option Method :=
  c.methods.get? ⟨name, type.render⟩

def addField (name : String) (type : FieldType) (flags : Flags .field) : Action Class Field :=
  fun c =>
    let field : Field := ⟨name, type, flags⟩
    if fresh : c.fields.find? field.key = none then
      let event := .fieldAdded c.name name field.key.descriptor
      ⟨.ok field, { c with fields := c.fields.push field fresh }, [event]⟩
    else ⟨.error (.duplicateMember name field.key.descriptor), c, []⟩

def addMethod (name : String) (type : MethodType) (flags : Flags .method) : Action Class Method :=
  fun c =>
    let method : Method := ⟨name, type, flags, c.name, none⟩
    if fresh : c.methods.find? method.key = none then
      let event := .methodAdded c.name name method.key.descriptor
      ⟨.ok method, { c with methods := c.methods.push method fresh }, [event]⟩
    else ⟨.error (.duplicateMember name method.key.descriptor), c, []⟩

/-- An action on the pool of the class. -/
def onPool (x : Action Pool α) : Action Class α := fun c =>
  match x c.pool with
  | ⟨result, pool, events⟩ => ⟨result, { c with pool }, events⟩

/-- A class holds no attribute but the list of nested classes. -/
def hold (c : Class) : Attribute → Class
  | .innerClasses list => { c with innerClasses := some list }
  | _ => c

/-- Attaches a new attribute in place of one of its kind. -/
def attach (kind : AttributeKind) : Action Class Unit := do
  let created ← Attribute.attach kind (.type (← Action.gets name))
  Action.modify fun c => c.hold created

/-- Changes the list of nested classes, if there is one. -/
def modifyInnerClasses (f : InnerClasses → InnerClasses) (c : Class) : Class :=
  { c with innerClasses := c.innerClasses.map f }

/-- Runs an action on the body of a method, which may have none, together with the pool. -/
def onBody (name : String) (type : MethodType) (x : Method → Action (Option Body × Pool) α) :
    Action Class α := fun c =>
  let descriptor := type.render
  match c.methods.locate? ⟨name, descriptor⟩ with
  | none => ⟨.error (.missingMember name descriptor), c, []⟩
  | some (position, method) =>
    match x method (method.body, c.pool) with
    | ⟨result, (body, pool), events⟩ =>
      ⟨result, { c with
        methods := c.methods.modify position (fun method => { method with body }) fun _ => rfl
        pool }, events⟩

/-- Makes sure that a method has a body. -/
def ensureBody (method : Method) : Action (Option Body) Unit := do
  if ← Action.gets Option.isNone then
    method.attach .code

/-- Runs an action on a body that is there. -/
def onSome (x : Action (Body × Pool) α) : Action (Option Body × Pool) α := fun (body, pool) =>
  match body with
  | none => ⟨.error (.illegalAttachment .code .method), (none, pool), []⟩
  | some body =>
    match x (body, pool) with
    | ⟨result, (body, pool), events⟩ => ⟨result, (some body, pool), events⟩

/-- The part of emitting code that a single method sees. -/
def emitBody (x : Action (Body × Pool) α) (method : Method) : Action (Option Body × Pool) α := do
  Action.onFst (ensureBody method)
  onSome x

/-- Emits code into a method. The body is created if there is none. -/
def emitCode (name : String) (type : MethodType) (x : Action (Body × Pool) α) : Action Class α :=
  onBody name type (emitBody x)

end Class

end Classfile
