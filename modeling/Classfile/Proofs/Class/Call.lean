import Classfile.Proofs.Body.Call
import Classfile.Proofs.Class.Lowering

/-!
# Calls on a class

A class is built by calls in any order, some of which are refused. The parts that accepted calls add
to a class are kept in a history, and the class is at all times what its history says.
-/

namespace Classfile.Class

open Classfile.Action

inductive Call where
  | interface (name : String)
  | field (name : String) (type : FieldType) (flags : Flags .field)
  | method (name : String) (type : MethodType) (flags : Flags .method)
  | attach (kind : AttributeKind)
  | attachToField (name : String) (type : FieldType) (kind : AttributeKind)
  | attachToMethod (name : String) (type : MethodType) (kind : AttributeKind)
  | attachToBody (name : String) (type : MethodType) (kind : AttributeKind)
  | nest (entry : InnerClassEntry)
  /-- Lists another class, by its own name and flags. -/
  | nestClass (inner : Class) (fileName : String)
  | code (name : String) (type : MethodType) (calls : List Body.Call)
  | addConstant (addition : Pool.Addition)

/-- Calls on a body, one after the other, whether they succeed or not. -/
def emitAll (calls : List Body.Call) : Action (Body × Pool) (List (Except Error Body.Reply)) :=
  Action.traverse (fun call => attempt call.run) calls

def Call.run : Call → Action Class Unit
  | interface name => modify fun c => c.addInterface name
  | field name type flags => do
    let _ ← addField name type flags
  | method name type flags => do
    let _ ← addMethod name type flags
  | attach kind => Class.attach kind
  | attachToField name type kind => do
    if ← gets fun c => (c.field? name type).isSome then
      Field.attach kind
  | attachToMethod name type kind => onBody name type fun method => onFst (method.attach kind)
  | attachToBody name type kind => do
    if ← gets fun c => ((c.method? name type).bind Method.body).isSome then
      emitCode name type (onFst (Body.attach kind))
  | nest entry => modify fun c => c.modifyInnerClasses (·.add entry)
  | nestClass inner fileName => modify fun c =>
    c.modifyInnerClasses (·.add ⟨fileName, inner.name, inner.flags.toNested⟩)
  | code name type calls => do
    let _ ← emitCode name type (emitAll calls)
  | addConstant addition => do
    let _ ← onPool addition.run

/-! ### Histories -/

/-- What an accepted call adds to a class. -/
inductive Part where
  | interface (name : String)
  | field (field : Field)
  | method (method : Method)
  /-- An empty list of nested classes, in place of the one before. -/
  | innerClasses
  | nested (entry : InnerClassEntry)
  | body (key : MemberKey)

def Call.part? (c : Class) : Call → Option Part
  | interface name => some (.interface name)
  | field name type flags => some (.field ⟨name, type, flags⟩)
  | method name type flags => some (.method ⟨name, type, flags, c.name, none⟩)
  | attach _ => some .innerClasses
  | attachToMethod name type _ => some (.body ⟨name, type.render⟩)
  | nest entry => some (.nested entry)
  | nestClass inner fileName => some (.nested ⟨fileName, inner.name, inner.flags.toNested⟩)
  | code name type _ => some (.body ⟨name, type.render⟩)
  | attachToField .. | attachToBody .. | addConstant _ => none

/-- The part added by a step, if the call was accepted. -/
def added? (step : Run.Step Class Call) : Option Part :=
  match (step.outcome Call.run).result with
  | .ok _ => step.call.part? step.before
  | .error _ => none

/-- How a class changes when a part is added to it, or none. -/
inductive Change (c : Class) : Option Part → Class → Prop where
  | pool (pool : Pool) : Change c none (c.withPool pool)
  | interface (name : String) : Change c (some (.interface name)) (c.addInterface name)
  | field {field : Field} (fresh : c.fields.find? field.key = none) :
      Change c (some (.field field)) { c with fields := c.fields.push field fresh }
  | method {method : Method} (fresh : c.methods.find? method.key = none)
      (hbody : method.body = none) :
      Change c (some (.method method)) { c with methods := c.methods.push method fresh }
  | innerClasses :
      Change c (some .innerClasses) { c with innerClasses := some (.start c.name) }
  | nested (entry : InnerClassEntry) :
      Change c (some (.nested entry)) (c.modifyInnerClasses (·.add entry))
  /-- The body of a method is created, or a body that is there changes. -/
  | body {key : MemberKey} {position : Nat} {method : Method} {body : Option Body}
      {part : Option Part} {pool : Pool} (hlocate : c.methods.locate? key = some (position, method))
      (hpart : part = some (.body key) ∧ body.isSome ∨
        part = none ∧ body.isSome = method.body.isSome) :
      Change c part (c.withMethods
        (c.methods.modify position (fun method => { method with body }) fun _ => rfl) pool)

theorem Change.same (c : Class) : Change c none c := .pool c.pool

variable {α : Type}

/-! ### Attributes -/

theorem gives_attribute {σ : Type} {kind : AttributeKind} {parent : Parent} {s s' : σ}
    {created : Attribute} :
    Gives (Attribute.attach kind parent) s created s' ↔
      Attribute.create kind parent = .ok created ∧ s = s' := by
  rw [Attribute.attach, gives_ofExcept_bind]
  simp only [gives_report_bind, gives_pure]
  constructor
  · rintro ⟨_, hcreate, rfl, rfl⟩
    exact ⟨hcreate, rfl⟩
  · rintro ⟨hcreate, rfl⟩
    exact ⟨created, hcreate, rfl, rfl⟩

theorem fails_attribute {σ : Type} {kind : AttributeKind} {parent : Parent} {s s' : σ} {e : Error}
    (h : Fails (Attribute.attach kind parent) s e s') : s' = s := by
  rw [Attribute.attach, fails_ofExcept_bind] at h
  simp only [fails_report_bind, fails_pure, and_false, exists_false, or_false] at h
  exact h.2.symm

theorem gives_methodAttach {method : Method} {kind : AttributeKind} {body next : Option Body}
    {u : Unit} (h : Gives (method.attach kind) body u next) : next.isSome := by
  rw [Method.attach, gives_bind] at h
  obtain ⟨created, _, hattach, hnext⟩ := h
  obtain ⟨hcreate, rfl⟩ := gives_attribute.mp hattach
  rw [gives_modify] at hnext
  subst hnext
  cases kind with
  | code =>
    change (Body.start method.type method.flags method.owner).map Attribute.code = _ at hcreate
    cases hstart : Body.start method.type method.flags method.owner with
    | error e =>
      rw [hstart] at hcreate
      cases hcreate
    | ok fresh =>
      rw [hstart] at hcreate
      cases hcreate
      rfl
  | innerClasses => cases hcreate
  | stackMapTable => cases hcreate

theorem fails_methodAttach {method : Method} {kind : AttributeKind} {body next : Option Body}
    {e : Error} (h : Fails (method.attach kind) body e next) : next = body := by
  rw [Method.attach, fails_bind] at h
  obtain h | ⟨_, _, -, h⟩ := h
  · exact fails_attribute h
  · exact absurd h fails_modify

theorem gives_ensureBody {method : Method} {body next : Option Body} {u : Unit}
    (h : Gives (ensureBody method) body u next) : next.isSome := by
  cases body with
  | none => exact gives_methodAttach h
  | some body =>
    obtain ⟨-, rfl⟩ := h
    rfl

theorem fails_ensureBody {method : Method} {body next : Option Body} {e : Error}
    (h : Fails (ensureBody method) body e next) : next = body := by
  cases body with
  | none => exact fails_methodAttach h
  | some body => cases h.1

/-- The action runs on a body that stays, unless none could be created. -/
theorem emitBody_cases (x : Action (Body × Pool) α) (method : Method) (pool : Pool) :
    ((∃ s, (emitBody x method (method.body, pool)).result = (x s).result) ∧
        (emitBody x method (method.body, pool)).state.1.isSome) ∨
      (∃ e, (emitBody x method (method.body, pool)).result = .error e) ∧
        (emitBody x method (method.body, pool)).state.1 = method.body := by
  obtain ⟨_, h⟩ | ⟨e, h⟩ := gives_or_fails (onFst (ensureBody method)) (method.body, pool)
  · left
    obtain ⟨hresult, hstate⟩ := bind_of_gives h fun _ => onSome x
    obtain ⟨body, hbody⟩ := Option.isSome_iff_exists.mp (gives_ensureBody (gives_onFst.mp h).1)
    rw [← Prod.eta (onFst (ensureBody method) (method.body, pool)).state, hbody] at hresult hstate
    exact ⟨⟨_, hresult⟩, congrArg (fun s => s.1.isSome) hstate⟩
  · right
    have hfails : Fails (emitBody x method) (method.body, pool) e _ := fails_bind.mpr (.inl h)
    exact ⟨⟨e, hfails.1⟩, by rw [hfails.2, fails_ensureBody (fails_onFst.mp h).1]⟩

theorem gives_attach {kind : AttributeKind} {c c' : Class} {u : Unit}
    (h : Gives (attach kind) c u c') : c' = { c with innerClasses := some (.start c.name) } := by
  rw [attach, gives_gets_bind, gives_bind] at h
  obtain ⟨created, _, hattach, hnext⟩ := h
  obtain ⟨hcreate, rfl⟩ := gives_attribute.mp hattach
  rw [gives_modify] at hnext
  subst hnext
  cases kind with
  | innerClasses =>
    cases hcreate
    rfl
  | code => cases hcreate
  | stackMapTable => cases hcreate

theorem fails_attach {kind : AttributeKind} {c c' : Class} {e : Error}
    (h : Fails (attach kind) c e c') : c' = c := by
  rw [attach, fails_gets_bind, fails_bind] at h
  obtain h | ⟨_, _, -, h⟩ := h
  · exact fails_attribute h
  · exact absurd h fails_modify

/-! ### Members -/

theorem gives_addField {name : String} {type : FieldType} {flags : Flags .field} {c c' : Class}
    {field : Field} (h : Gives (addField name type flags) c field c') :
    Change c (some (.field ⟨name, type, flags⟩)) c' := by
  simp only [Gives, addField] at h
  split at h
  · next fresh =>
    obtain ⟨-, rfl⟩ := h
    exact .field fresh
  · cases h.1

theorem fails_addField {name : String} {type : FieldType} {flags : Flags .field} {c c' : Class}
    {e : Error} (h : Fails (addField name type flags) c e c') : c' = c := by
  simp only [Fails, addField] at h
  split at h
  · cases h.1
  · exact h.2.symm

theorem gives_addMethod {name : String} {type : MethodType} {flags : Flags .method} {c c' : Class}
    {method : Method} (h : Gives (addMethod name type flags) c method c') :
    Change c (some (.method ⟨name, type, flags, c.name, none⟩)) c' := by
  simp only [Gives, addMethod] at h
  split at h
  · next fresh =>
    obtain ⟨-, rfl⟩ := h
    exact .method fresh rfl
  · cases h.1

theorem fails_addMethod {name : String} {type : MethodType} {flags : Flags .method} {c c' : Class}
    {e : Error} (h : Fails (addMethod name type flags) c e c') : c' = c := by
  simp only [Fails, addMethod] at h
  split at h
  · cases h.1
  · exact h.2.symm

/-! ### Bodies -/

theorem result_onBody {name : String} {type : MethodType}
    {x : Method → Action (Option Body × Pool) α} {c : Class} {position : Nat} {method : Method}
    (h : c.methods.locate? ⟨name, type.render⟩ = some (position, method)) :
    (onBody name type x c).result = (x method (method.body, c.pool)).result := by
  simp only [onBody, h]

theorem result_onBody_missing {name : String} {type : MethodType}
    {x : Method → Action (Option Body × Pool) α} {c : Class}
    (h : c.methods.locate? ⟨name, type.render⟩ = none) :
    (onBody name type x c).result = .error (.missingMember name type.render) := by
  simp only [onBody, h]

theorem change_onBody {name : String} {type : MethodType}
    {x : Method → Action (Option Body × Pool) α} {c : Class} {part : Option Part}
    (hmissing : c.methods.locate? ⟨name, type.render⟩ = none → part = none)
    (hbody : ∀ position method, c.methods.locate? ⟨name, type.render⟩ = some (position, method) →
      part = some (.body ⟨name, type.render⟩) ∧ (x method (method.body, c.pool)).state.1.isSome ∨
        part = none ∧
          (x method (method.body, c.pool)).state.1.isSome = method.body.isSome) :
    Change c part (onBody name type x c).state := by
  unfold onBody
  dsimp only
  split
  · next hlocate =>
    rw [hmissing hlocate]
    exact .same c
  · next position method hlocate => exact .body hlocate (hbody position method hlocate)

theorem added?_of_ok {call : Call} {c : Class} {u : Unit} (h : (call.run c).result = .ok u) :
    added? ⟨call, c⟩ = call.part? c := by
  rw [added?, Run.Step.outcome, h]

theorem added?_of_error {call : Call} {c : Class} {e : Error} (h : (call.run c).result = .error e) :
    added? ⟨call, c⟩ = none := by
  rw [added?, Run.Step.outcome, h]

theorem change_attachToMethod (c : Class) (name : String) (type : MethodType)
    (kind : AttributeKind) :
    Change c (added? ⟨.attachToMethod name type kind, c⟩)
      ((Call.attachToMethod name type kind).run c).state := by
  refine change_onBody (fun hmissing => added?_of_error (result_onBody_missing hmissing)) ?_
  intro position method hlocate
  have hresult : ((Call.attachToMethod name type kind).run c).result = _ := result_onBody hlocate
  obtain ⟨_, h⟩ | ⟨e, h⟩ := gives_or_fails (onFst (method.attach kind)) (method.body, c.pool)
  · rw [h.1] at hresult
    rw [added?_of_ok hresult]
    exact .inl ⟨rfl, gives_methodAttach (gives_onFst.mp h).1⟩
  · rw [h.1] at hresult
    exact .inr ⟨added?_of_error hresult, by rw [fails_methodAttach (fails_onFst.mp h).1]⟩

/-- Calls on a body are made to the last, so the code is emitted once there is a body. -/
theorem exists_result_emitAll (calls : List Body.Call) (s : Body × Pool) :
    ∃ replies, (emitAll calls s).result = .ok replies := by
  suffices h : ∀ results events, ∃ replies,
      (traverseFrom (fun call : Body.Call => attempt call.run) calls results events s).result =
        .ok replies from h [] []
  induction calls generalizing s with
  | nil => exact fun results _ => ⟨results.reverse, rfl⟩
  | cons call rest ih =>
    intro results events
    rw [traverseFrom, attempt]
    exact ih _ _ _

theorem change_code (c : Class) (name : String) (type : MethodType) (calls : List Body.Call) :
    Change c (added? ⟨.code name type calls, c⟩) ((Call.code name type calls).run c).state := by
  have hresult : ((Call.code name type calls).run c).result = _ :=
    result_bind_pure (emitCode name type (emitAll calls)) _ c
  rw [Call.run, state_bind_pure]
  refine change_onBody (fun hmissing => ?_) fun position method hlocate => ?_
  · rw [emitCode, result_onBody_missing hmissing] at hresult
    exact added?_of_error hresult
  · rw [emitCode, result_onBody hlocate] at hresult
    obtain ⟨⟨s, hemit⟩, hsome⟩ | ⟨⟨e, hemit⟩, hsame⟩ :=
      emitBody_cases (emitAll calls) method c.pool
    · obtain ⟨replies, hreplies⟩ := exists_result_emitAll calls s
      rw [hemit, hreplies] at hresult
      rw [added?_of_ok hresult]
      exact .inl ⟨rfl, hsome⟩
    · rw [hemit] at hresult
      exact .inr ⟨added?_of_error hresult, congrArg Option.isSome hsame⟩

theorem change_attachToBody (c : Class) (name : String) (type : MethodType)
    (kind : AttributeKind) :
    Change c none ((Call.attachToBody name type kind).run c).state := by
  change Change c none ((if ((c.method? name type).bind Method.body).isSome then
    emitCode name type (onFst (Body.attach kind)) else pure ()) c).state
  split
  · next hbody =>
    refine change_onBody (fun _ => rfl) fun position method hlocate => .inr ⟨rfl, ?_⟩
    have hmethod : c.method? name type = some method := by
      rw [method?, Registry.get?, hlocate]
      rfl
    rw [hmethod] at hbody
    obtain ⟨-, hsome⟩ | ⟨-, hsame⟩ := emitBody_cases (onFst (Body.attach kind)) method c.pool
    · exact hsome.trans hbody.symm
    · exact congrArg Option.isSome hsame
  · exact .same c

theorem state_fieldAttach (kind : AttributeKind) (c : Class) :
    (Field.attach kind c).state = c := by
  rw [Field.attach, state_bind_pure]
  obtain ⟨_, h⟩ | ⟨_, h⟩ := gives_or_fails (Attribute.attach kind .field) c
  · exact (gives_attribute.mp h).2.symm
  · exact fails_attribute h

theorem change_attachToField (c : Class) (name : String) (type : FieldType)
    (kind : AttributeKind) :
    Change c none ((Call.attachToField name type kind).run c).state := by
  change Change c none ((if (c.field? name type).isSome then Field.attach kind else pure ())
    c).state
  split
  · rw [state_fieldAttach]
    exact .same c
  · exact .same c

/-! ### What a call does -/

/-- A call changes a class by the part that it adds, if it is accepted. -/
theorem change_run (call : Call) (c : Class) : Change c (added? ⟨call, c⟩) (call.run c).state := by
  -- Calls whose part depends on the outcome are told apart by it.
  obtain ⟨_, h⟩ | ⟨e, h⟩ := gives_or_fails call.run c
  · have hpart := added?_of_ok h.1
    cases call with
    | interface name => exact .interface name
    | field name type flags =>
      obtain ⟨_, hadd, -⟩ := gives_bind_pure.mp h
      exact hpart ▸ gives_addField hadd
    | method name type flags =>
      obtain ⟨_, hadd, -⟩ := gives_bind_pure.mp h
      exact hpart ▸ gives_addMethod hadd
    | attach kind =>
      rw [hpart, gives_attach h]
      exact .innerClasses
    | attachToField name type kind => exact hpart ▸ change_attachToField c name type kind
    | attachToMethod name type kind => exact change_attachToMethod c name type kind
    | attachToBody name type kind => exact hpart ▸ change_attachToBody c name type kind
    | nest entry => exact .nested entry
    | nestClass inner fileName => exact .nested _
    | code name type calls => exact change_code c name type calls
    | addConstant addition =>
      rw [hpart, Call.run, state_bind_pure]
      exact .pool _
  · have hpart := added?_of_error h.1
    cases call with
    | interface name => cases h.1
    | field name type flags =>
      rw [hpart, fails_addField (fails_bind_pure.mp h)]
      exact .same c
    | method name type flags =>
      rw [hpart, fails_addMethod (fails_bind_pure.mp h)]
      exact .same c
    | attach kind =>
      rw [hpart, fails_attach h]
      exact .same c
    | attachToField name type kind => exact hpart ▸ change_attachToField c name type kind
    | attachToMethod name type kind => exact change_attachToMethod c name type kind
    | attachToBody name type kind => exact hpart ▸ change_attachToBody c name type kind
    | nest entry => cases h.1
    | nestClass inner fileName => cases h.1
    | code name type calls => exact change_code c name type calls
    | addConstant addition =>
      rw [hpart, Call.run, state_bind_pure]
      exact .pool _

end Classfile.Class
