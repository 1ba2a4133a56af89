import Classfile.Proofs.Class.Generation
import Classfile.Proofs.Pool.Reachable
import Mathlib.Data.List.Nodup

/-!
# Uniqueness of members

Members are told apart by name and descriptor while a class is built, and by indices once it is
lowered. The first is kept by every request, and the second follows since an index stands for one
text only.
-/

namespace Classfile

open Classfile.Action

/-! ### Pools stay within bounds -/

namespace Pool

variable {σ α : Type}

/-- The action does not take the pool out of bounds. -/
abbrev Bounding (x : Action (σ × Pool) α) : Prop := Moves (Preserves fun s => s.2.Bounded) x

theorem bounding_onFst (x : Action σ α) : Bounding (onFst x) := fun _ h => h

theorem bounding_onFstWith (x : Pool → Action σ α) : Bounding (onFstWith x) := fun _ h => h

theorem bounding_onSnd {x : Action Pool α} (h : Moves (Preserves Bounded) x) :
    Bounding (onSnd x : Action (σ × Pool) α) :=
  fun s => h s.2

end Pool

open Pool

namespace Body

theorem bounding_call (call : Call) : Bounding call.run := by
  cases call with
  | push instruction => exact moves_bind (bounding_onFstWith _) fun _ => moves_pure _
  | addConstant addition =>
    exact moves_bind (bounding_onSnd (moves_run bounded_add addition)) fun _ => moves_pure _
  | _ => exact moves_bind (bounding_onFst _) fun _ => moves_pure _

theorem bounded_lowerAttributes (body : Body) : Moves (Preserves Bounded) body.lowerAttributes := by
  unfold lowerAttributes
  split
  · exact moves_pure _
  · exact moves_bind (moves_stackMap bounded_add _) fun _ => moves_pure _

theorem bounding_lower : Bounding lower :=
  moves_bind (moves_gets _) fun _ => moves_bind (moves_ofExcept _) fun _ =>
    moves_bind (bounding_onFst _) fun _ => moves_bind (moves_gets _) fun body =>
    moves_bind (bounding_onSnd body.bounded_lowerAttributes) fun _ =>
    moves_bind (moves_report _) fun _ => moves_pure _

theorem bounding_lowerAttribute : Bounding lowerAttribute :=
  moves_bind bounding_lower fun _ => bounding_onSnd (moves_toAttribute bounded_add _)

end Body

namespace Method

theorem bounding_lowerBody : Bounding lowerBody := by
  rintro ⟨body | body, pool⟩ hpool
  · exact hpool
  · exact Body.bounding_lowerAttribute (body, pool) hpool

theorem bounding_lowerParts (method : Method) : Bounding method.lowerParts :=
  moves_bind (bounding_onSnd (bounded_add _)) fun _ =>
    moves_bind (bounding_onSnd (bounded_add _)) fun _ =>
    moves_bind bounding_lowerBody fun _ => moves_pure _

theorem bounding_lower : Bounding lower :=
  fun (method, pool) => method.bounding_lowerParts (method.body, pool)

end Method

namespace Class

variable {α : Type}

/-- The action does not take the pool of the class out of bounds. -/
abbrev Bounding (x : Action Class α) : Prop := Moves (Preserves fun c => c.pool.Bounded) x

theorem bounding_onPool {x : Action Pool α} (h : Moves (Preserves Bounded) x) :
    Bounding (onPool x) :=
  fun c => h c.pool

theorem bounding_onBody {name : String} {type : MethodType}
    {x : Method → Action (Option Body × Pool) α} (h : ∀ method, Pool.Bounding (x method)) :
    Bounding (onBody name type x) := by
  intro c hc
  unfold onBody
  dsimp only
  split
  · exact hc
  · next position method _ => exact h method (method.body, c.pool) hc

theorem bounding_emitCode {name : String} {type : MethodType} {x : Action (Body × Pool) α}
    (h : Pool.Bounding x) : Bounding (emitCode name type x) := by
  have hsome : Pool.Bounding (onSome x) := by
    rintro ⟨body | body, pool⟩ hpool
    · exact hpool
    · exact h (body, pool) hpool
  rw [emitCode]
  exact bounding_onBody fun _ => moves_bind (bounding_onFst _) fun _ => hsome

theorem bounding_emitAll (calls : List Body.Call) : Pool.Bounding (emitAll calls) := by
  have hcall : ∀ call : Body.Call, Pool.Bounding (attempt call.run) :=
    fun call s => Body.bounding_call call s
  exact moves_traverse hcall calls

theorem bounding_call (call : Call) : Bounding call.run := by
  cases call with
  | interface name =>
    intro c hc
    change (c.addInterface name).pool.Bounded
    unfold addInterface
    split <;> exact hc
  | field name type flags =>
    refine moves_bind (fun c hc => ?_) fun _ => moves_pure _
    unfold addField
    dsimp only
    split <;> exact hc
  | method name type flags =>
    refine moves_bind (fun c hc => ?_) fun _ => moves_pure _
    unfold addMethod
    dsimp only
    split <;> exact hc
  | attach kind =>
    intro c hc
    obtain ⟨_, h⟩ | ⟨e, h⟩ := gives_or_fails (attach kind) c
    · change (attach kind c).state.pool.Bounded
      rw [gives_attach h]
      exact hc
    · change (attach kind c).state.pool.Bounded
      rw [fails_attach h]
      exact hc
  | attachToField name type kind =>
    refine moves_bind (moves_gets _) fun found c hc => ?_
    split
    · rw [state_fieldAttach]
      exact hc
    · exact hc
  | attachToMethod name type kind => exact bounding_onBody fun _ => bounding_onFst _
  | attachToBody name type kind =>
    refine moves_bind (moves_gets _) fun found => ?_
    split
    · exact bounding_emitCode (bounding_onFst _)
    · exact moves_pure _
  | nest entry => exact fun _ hc => hc
  | nestClass inner fileName => exact fun _ hc => hc
  | code name type calls =>
    exact moves_bind (bounding_emitCode (bounding_emitAll calls)) fun _ => moves_pure _
  | addConstant addition =>
    exact moves_bind (bounding_onPool (moves_run bounded_add addition)) fun _ => moves_pure _

theorem bounding_lowerMethods : Bounding lowerMethods := by
  intro c hc
  have hlower : Moves (Both (Perhaps Method.settle) (Preserves Bounded)) Method.lower :=
    fun s => ⟨(Method.repeats_lower.moves s).1, Method.bounding_lower s⟩
  exact (moves_traverseStates hlower (c.methods.toList, c.pool)).2 hc

theorem bounding_lower : Bounding lower := by
  have hclass := moves_addClass bounded_add
  have hfield : ∀ field : Field, Moves (Preserves Bounded) field.lower := fun field =>
    moves_bind (bounded_add _) fun _ => moves_bind (bounded_add _) fun _ => moves_pure _
  have hattributes : ∀ c : Class, Moves (Preserves Bounded) c.lowerAttributes := by
    intro c
    unfold lowerAttributes
    split
    · exact moves_pure _
    · exact moves_bind (moves_innerClasses bounded_add _) fun _ => moves_pure _
  exact moves_bind (moves_gets _) fun _ => moves_bind (bounding_onPool (hclass _)) fun _ =>
    moves_bind (moves_gets _) fun _ => moves_bind (bounding_onPool (hclass _)) fun _ =>
    moves_bind (moves_gets _) fun _ =>
    moves_bind (bounding_onPool (moves_traverse hclass _)) fun _ =>
    moves_bind (moves_gets _) fun _ =>
    moves_bind (bounding_onPool (moves_traverse hfield _)) fun _ =>
    moves_bind bounding_lowerMethods fun _ => moves_gets_bind fun c =>
    moves_bind (bounding_onPool (hattributes c)) fun _ => moves_gets _

theorem bounding_generate : Bounding generate :=
  moves_bind bounding_lower fun _ => moves_bind (moves_ofExcept _) fun _ =>
    moves_bind (moves_gets _) fun _ => moves_bind (moves_report _) fun _ => moves_pure _

/-! ### Refused calls -/

theorem fails_bodyAttach {kind : AttributeKind} {body next : Body} {e : Error}
    (h : Fails (Body.attach kind) body e next) : next = body := by
  rw [Body.attach, fails_bind] at h
  obtain h | ⟨_, _, -, h⟩ := h
  · exact fails_attribute h
  · exact absurd h fails_modify

/-- Emitting code fails before anything has changed, or it fails in a body. -/
theorem fails_emitBody {x : Action (Body × Pool) α} {method : Method} {pool : Pool} {e : Error}
    {s : Option Body × Pool} (h : Fails (emitBody x method) (method.body, pool) e s) :
    s = (method.body, pool) ∨ ∃ body next, Gives (ensureBody method) method.body () (some body) ∧
      Fails x (body, pool) e next ∧ s = (some next.1, next.2) := by
  obtain h | ⟨_, ⟨created, same⟩, hensure, h⟩ := fails_bind.mp h
  · obtain ⟨hfails, hpool⟩ := fails_onFst.mp h
    exact .inl (Prod.ext (fails_ensureBody hfails) hpool.symm)
  · obtain ⟨hensure, rfl⟩ := gives_onFst.mp hensure
    obtain ⟨body, rfl⟩ := Option.isSome_iff_exists.mp (gives_ensureBody hensure)
    exact .inr ⟨body, _, hensure, ⟨h.1, rfl⟩, h.2.symm⟩

/-- What leaves a body and the pool alone leaves the class alone. -/
theorem fails_onBody {name : String} {type : MethodType}
    {x : Method → Action (Option Body × Pool) α} {c c' : Class} {e : Error}
    (h : Fails (onBody name type x) c e c')
    (hx : ∀ position method s, c.methods.locate? ⟨name, type.render⟩ = some (position, method) →
      Fails (x method) (method.body, c.pool) e s → s = (method.body, c.pool)) : c' = c := by
  obtain ⟨hresult, rfl⟩ := h
  cases hlocate : c.methods.locate? ⟨name, type.render⟩ with
  | none => simp only [onBody, hlocate]
  | some found =>
    obtain ⟨position, method⟩ := found
    rw [result_onBody hlocate] at hresult
    have hstate := hx position method _ hlocate ⟨hresult, rfl⟩
    have hmethods : c.methods.modify position (fun m => { m with body := method.body })
        (fun _ => rfl) = c.methods :=
      Registry.modify_eq_self (Registry.locate?_eq_some_iff.mp hlocate).1 rfl
    simp only [onBody, hlocate, hstate, hmethods]

theorem fails_emitAll {calls : List Body.Call} {s s' : Body × Pool} {e : Error} :
    ¬ Fails (emitAll calls) s e s' := by
  intro h
  obtain ⟨replies, hreplies⟩ := exists_result_emitAll calls s
  cases hreplies.symm.trans h.1

/-- A refused call leaves the class as it was. Only constants may stay in the pool. -/
theorem state_of_refused {call : Call} (hcall : ∀ addition, call ≠ .addConstant addition)
    {c : Class} {e : Error} (h : (call.run c).result = .error e) : (call.run c).state = c := by
  have hfails : Fails call.run c e (call.run c).state := ⟨h, rfl⟩
  cases call with
  | interface name => cases h
  | field name type flags => exact fails_addField (fails_bind_pure.mp hfails)
  | method name type flags => exact fails_addMethod (fails_bind_pure.mp hfails)
  | attach kind => exact fails_attach hfails
  | attachToField name type kind =>
    change ((if (c.field? name type).isSome then Field.attach kind else pure ()) c).state = c
    split
    · exact state_fieldAttach kind c
    · rfl
  | attachToMethod name type kind =>
    refine fails_onBody hfails fun position method s _ hx => ?_
    obtain ⟨hattach, hpool⟩ := fails_onFst.mp hx
    exact Prod.ext (fails_methodAttach hattach) hpool.symm
  | attachToBody name type kind =>
    rw [Call.run, fails_gets_bind] at hfails
    split at hfails
    · next hbody =>
      rw [emitCode] at hfails
      refine fails_onBody hfails fun position method s hlocate hx => ?_
      obtain hsame | ⟨body, next, hensure, hattach, hs⟩ := fails_emitBody hx
      · exact hsame
      · have hmethod : c.method? name type = some method := by
          rw [method?, Registry.get?, hlocate]
          rfl
        rw [hmethod] at hbody
        obtain ⟨old, hold⟩ := Option.isSome_iff_exists.mp hbody
        change method.body = some old at hold
        -- The body was there, so none was created.
        rw [hold] at hensure ⊢
        obtain rfl : old = body := Option.some.inj hensure.2
        obtain ⟨hbody, hpool⟩ := fails_onFst.mp hattach
        rw [hs, ← hpool, fails_bodyAttach hbody]
    · exact absurd hfails fails_pure
  | nest entry => cases h
  | nestClass inner fileName => cases h
  | code name type calls =>
    have hemit := fails_bind_pure.mp hfails
    rw [emitCode] at hemit
    refine fails_onBody hemit fun position method s _ hx => ?_
    obtain hsame | ⟨body, next, -, hcalls, -⟩ := fails_emitBody hx
    · exact hsame
    · exact absurd hcalls fails_emitAll
  | addConstant addition => exact absurd rfl (hcall addition)

/-- Members of a sort are refused exactly if there is one of the same name and descriptor. -/
theorem add_eq_error_iff {α : Type} {key : α → MemberKey} {registry : Registry key} {c : Class}
    {name descriptor : String} {added : registry.find? ⟨name, descriptor⟩ = none → Outcome Class α}
    (hadded : ∀ fresh e, (added fresh).result ≠ .error e) {e : Error} :
    (if fresh : registry.find? ⟨name, descriptor⟩ = none then added fresh
      else ⟨.error (.duplicateMember name descriptor), c, []⟩ : Outcome Class α).result =
        .error e ↔
      e = .duplicateMember name descriptor ∧
        ∃ a ∈ registry.toList, (key a).name = name ∧ (key a).descriptor = descriptor := by
  have hkey (a : α) : (key a).name = name ∧ (key a).descriptor = descriptor ↔
      key a = ⟨name, descriptor⟩ := by
    rw [← MemberKey.mk.injEq]
  simp only [hkey, Registry.exists_key_iff]
  split
  · next fresh => exact ⟨fun h => absurd h (hadded fresh e), fun h => absurd fresh h.2⟩
  · next hold => exact ⟨fun h => ⟨(Except.error.inj h).symm, hold⟩, fun h => h.1 ▸ rfl⟩

theorem addField_eq_error_iff {c : Class} {name : String} {type : FieldType} {flags : Flags .field}
    {e : Error} : (addField name type flags c).result = .error e ↔
      e = .duplicateMember name type.render ∧
        ∃ field ∈ c.fields.toList, field.name = name ∧ field.type.render = type.render := by
  refine add_eq_error_iff fun _ _ h => ?_
  cases h

theorem addMethod_eq_error_iff {c : Class} {name : String} {type : MethodType}
    {flags : Flags .method} {e : Error} : (addMethod name type flags c).result = .error e ↔
      e = .duplicateMember name type.render ∧
        ∃ method ∈ c.methods.toList, method.name = name ∧ method.type.render = type.render := by
  refine add_eq_error_iff fun _ _ h => ?_
  cases h

end Class

/-! ### Lowered members -/

namespace Layout.ClassFile

/-- No two parts of the same owner have the same indices. -/
structure Distinct (file : ClassFile) : Prop where
  fields : (file.fields.map fun field => (field.name, field.descriptor)).Nodup
  methods : (file.methods.map fun method => (method.name, method.descriptor)).Nodup
  interfaces : file.interfaces.Nodup
  attributes : (file.attributes.map Attribute.name).Nodup
  methodAttributes : ∀ method ∈ file.methods, (method.attributes.map Attribute.name).Nodup
  /-- The attributes of methods are bodies, which have attributes of their own. -/
  codeAttributes : ∀ method ∈ file.methods, ∀ a ∈ method.attributes, ∃ code,
    Reader.whole readCode a.info = some code ∧ (code.attributes.map Attribute.name).Nodup

end Layout.ClassFile

open Description

section Resolved

variable {α β γ κ : Type} {f : α → Option β} {items : List α} {results : List β}

/-- A view of the items that their results have too. -/
theorem map_eq_of_mapM {view : α → κ} {key : β → κ} (h : items.mapM f = some results)
    (hview : ∀ a b, f a = some b → view a = key b) : items.map view = results.map key := by
  rw [← List.forall₂_eq_eq_eq, List.forall₂_map_left_iff, List.forall₂_map_right_iff]
  exact (forall₂_of_mapM h).imp hview

theorem map_of_mapM (h : items.mapM f = some results) : items.map f = results.map some :=
  map_eq_of_mapM h fun _ _ hb => hb

theorem exists_of_mem_items (h : items.mapM f = some results) {a : α} (ha : a ∈ items) :
    ∃ b ∈ results, f a = some b := by
  have hmem := List.mem_map_of_mem (f := f) ha
  rw [map_of_mapM h] at hmem
  obtain ⟨b, hb, heq⟩ := List.mem_map.mp hmem
  exact ⟨b, hb, heq.symm⟩

theorem exists_of_mem_results (h : items.mapM f = some results) {b : β} (hb : b ∈ results) :
    ∃ a ∈ items, f a = some b := by
  have hmem := List.mem_map_of_mem (f := some) hb
  rw [← map_of_mapM h] at hmem
  exact List.mem_map.mp hmem

theorem length_of_mapM (h : items.mapM f = some results) : items.length = results.length :=
  (forall₂_of_mapM h).length_eq

/-- Indices that lead to different keys are different. -/
theorem nodup_of_mapM (view : α → γ) (key : β → κ) (look : γ → Option κ)
    (h : items.mapM f = some results)
    (hlook : ∀ a b, f a = some b → look (view a) = some (key b))
    (hkeys : (results.map key).Nodup) : (items.map view).Nodup := by
  have hmap : (items.map view).map look = (results.map key).map some := by
    rw [List.map_map, List.map_map]
    exact map_eq_of_mapM h hlook
  apply List.Nodup.of_map look
  rw [hmap]
  exact hkeys.map fun _ _ heq => Option.some.inj heq

theorem nodup_of_length_le_one {names : List α} (h : names.length ≤ 1) : names.Nodup := by
  match names with
  | [] => exact .nil
  | [name] => exact List.nodup_singleton name

end Resolved

/-- A method has one body at most, and a body one stack map. -/
theorem Method.describe?_eq_some {method : Method} {entry : MethodEntry}
    (h : method.describe? = some entry) : MemberKey.mk entry.name entry.descriptor = method.key ∧
      entry.bodies.length ≤ 1 ∧ ∀ code ∈ entry.bodies, code.stackMaps.length ≤ 1 := by
  simp only [describe?, Option.bind_eq_bind, Option.bind_eq_some_iff] at h
  obtain ⟨bodies, hbodies, h⟩ := h
  cases h
  refine ⟨rfl, ?_, ?_⟩
  · rw [← length_of_mapM hbodies]
    cases method.body <;> simp
  · intro code hcode
    obtain ⟨body, -, hbody⟩ := exists_of_mem_results hbodies hcode
    simp only [Body.describe?, Option.bind_eq_bind, Option.bind_eq_some_iff] at hbody
    obtain ⟨_, -, stackMaps, hmaps, hcode⟩ := hbody
    cases hcode
    rw [← length_of_mapM hmaps]
    cases body.table <;> simp

theorem exists_of_resolveMethod {constants : List Constant} {method : Layout.Method}
    {entry : MethodEntry} (h : resolveMethod constants method = some entry) :
    textAt? constants method.name = some entry.name ∧
      textAt? constants method.descriptor = some entry.descriptor ∧
      method.attributes.mapM (resolveCode constants) = some entry.bodies := by
  simp only [resolveMethod, Option.bind_eq_bind, Option.bind_eq_some_iff] at h
  obtain ⟨name, hname, descriptor, hdescriptor, bodies, hbodies, h⟩ := h
  cases h
  exact ⟨hname, hdescriptor, hbodies⟩

theorem exists_of_resolveField {constants : List Constant} {field : Layout.Field}
    {entry : FieldEntry} (h : resolveField constants field = some entry) :
    textAt? constants field.name = some entry.name ∧
      textAt? constants field.descriptor = some entry.descriptor := by
  simp only [resolveField, Option.bind_eq_bind, Option.bind_eq_some_iff] at h
  obtain ⟨name, hname, descriptor, hdescriptor, _, -, h⟩ := h
  cases h
  exact ⟨hname, hdescriptor⟩

theorem exists_of_resolveCode {constants : List Constant} {a : Layout.Attribute} {entry : CodeEntry}
    (h : resolveCode constants a = some entry) :
    ∃ code, Reader.whole Layout.readCode a.info = some code ∧
      code.attributes.mapM (resolveStackMap constants) = some entry.stackMaps := by
  simp only [resolveCode, openAttribute, Option.bind_eq_bind, Option.bind_eq_some_iff] at h
  obtain ⟨code, ⟨text, -, hcode⟩, stackMaps, hmaps, h⟩ := h
  cases h
  split at hcode
  · exact ⟨code, hcode, hmaps⟩
  · cases hcode

/-- The member that a pair of indices stands for. -/
def keyAt? (constants : List Constant) (indices : Index .utf8 × Index .utf8) :
    Option MemberKey := do
  return ⟨← textAt? constants indices.1, ← textAt? constants indices.2⟩

namespace Class

/-- The pool of a class file is the one that the class is left with. -/
theorem pool_of_gives_lower {c c' : Class} {file : Layout.ClassFile} (h : Gives lower c file c') :
    file.pool = c'.pool := by
  -- The steps before the last one only change the class.
  repeat obtain ⟨_, _, -, h⟩ := gives_bind.mp h
  obtain ⟨rfl, rfl⟩ := gives_gets.mp h
  rfl

theorem distinct_of_gives_lower {c c' : Class} {file : Layout.ClassFile}
    (h : Gives lower c file c') (hsize : file.pool.size < 0xFFFF) : file.Distinct := by
  obtain ⟨description, hdescribe, hresolve⟩ := resolve_of_gives_lower h hsize
  simp only [resolve, Layout.ClassFile.image, Option.bind_eq_bind, Option.bind_eq_some_iff]
    at hresolve
  obtain ⟨_, -, _, -, interfaces, hinterfaces, fields, hfields, methods, hmethods, nested, hnested,
    hresolve⟩ := hresolve
  simp only [describe?, Option.bind_eq_bind, Option.bind_eq_some_iff] at hdescribe
  obtain ⟨entries, hentries, hdescribe⟩ := hdescribe
  obtain ⟨-, -, -, -, rfl, rfl, rfl, rfl⟩ :=
    Description.mk.inj (Option.some.inj (hdescribe.trans hresolve.symm))
  have hentry : ∀ method ∈ file.methods, ∃ entry,
      resolveMethod file.pool.toList method = some entry ∧ entry.bodies.length ≤ 1 ∧
        ∀ code ∈ entry.bodies, code.stackMaps.length ≤ 1 := by
    intro method hmethod
    obtain ⟨entry, hmem, hresolved⟩ := exists_of_mem_items hmethods hmethod
    obtain ⟨source, -, hsource⟩ := exists_of_mem_results hentries hmem
    exact ⟨entry, hresolved, (Method.describe?_eq_some hsource).2⟩
  refine ⟨?_, ?_, ?_, ?_, ?_, ?_⟩
  · refine nodup_of_mapM _ (fun entry => ⟨entry.name, entry.descriptor⟩)
      (keyAt? file.pool.toList) hfields (fun field entry hfield => ?_) ?_
    · obtain ⟨hname, hdescriptor⟩ := exists_of_resolveField hfield
      simp [keyAt?, hname, hdescriptor]
    · rw [List.map_map]
      exact c.fields.nodup_keys
  · refine nodup_of_mapM _ (fun entry => ⟨entry.name, entry.descriptor⟩)
      (keyAt? file.pool.toList) hmethods (fun method entry hmethod => ?_) ?_
    · obtain ⟨hname, hdescriptor, -⟩ := exists_of_resolveMethod hmethod
      simp [keyAt?, hname, hdescriptor]
    · rw [← map_eq_of_mapM hentries fun _ _ h => (Method.describe?_eq_some h).1.symm]
      exact c.methods.nodup_keys
  · have hnames : (c.interfaces.toList.map fun name => name).Nodup := c.interfaces.nodup_keys
    have hindices := nodup_of_mapM (fun index => index) (fun name => name) _ hinterfaces
      (fun _ _ h => h) hnames
    rwa [List.map_id'] at hindices
  · apply nodup_of_length_le_one
    rw [List.length_map, length_of_mapM hnested]
    cases c.innerClasses <;> simp
  · intro method hmethod
    obtain ⟨entry, hresolved, hlength, -⟩ := hentry method hmethod
    apply nodup_of_length_le_one
    rw [List.length_map, length_of_mapM (exists_of_resolveMethod hresolved).2.2]
    exact hlength
  · intro method hmethod a ha
    obtain ⟨entry, hresolved, -, hmaps⟩ := hentry method hmethod
    obtain ⟨body, hbody, hcode⟩ := exists_of_mem_items (exists_of_resolveMethod hresolved).2.2 ha
    obtain ⟨code, hread, hattributes⟩ := exists_of_resolveCode hcode
    refine ⟨code, hread, nodup_of_length_le_one ?_⟩
    rw [List.length_map, length_of_mapM hattributes]
    exact hmaps body hbody

/-! ### Along a run -/

/-- Everything that can be asked of a class. -/
inductive Request where
  | call (call : Call)
  /-- Asks for the class file. -/
  | lower
  /-- Asks for the bytes of the class file. -/
  | generate

def Request.run : Request → Action Class Unit
  | call made => made.run
  | lower => do
    let _ ← Class.lower
  | generate => do
    let _ ← Class.generate

/-- The part that a step has added, if it was accepted. -/
def newPart? (step : Run.Step Class Request) : Option Part :=
  match step.call with
  | .call call => added? ⟨call, step.before⟩
  | .lower | .generate => none

theorem bounding_request (request : Request) : Bounding request.run := by
  cases request with
  | call call => exact bounding_call call
  | lower => exact moves_bind bounding_lower fun _ => moves_pure _
  | generate => exact moves_bind bounding_generate fun _ => moves_pure _

/-- A class file is made without a change to the members, but for their bodies. -/
theorem Settles.members {c later : Class} (h : c.Settles later) :
    later.fields.toList = c.fields.toList ++ [] ∧
      later.methods.toList.map Method.bare = c.methods.toList.map Method.bare ++ [] := by
  rw [List.append_nil, List.append_nil]
  refine ⟨by cases h; rfl, Eq.symm ?_⟩
  rw [← List.forall₂_eq_eq_eq, List.forall₂_map_left_iff, List.forall₂_map_right_iff]
  apply h.methods.imp
  rintro method _ (rfl | rfl) <;> rfl

/-- A step puts its part behind the members of its sort, and changes no other. -/
theorem members_step (step : Run.Step Class Request) :
    (step.after Request.run).fields.toList =
        step.before.fields.toList ++ ((newPart? step).bind Part.field?).toList ∧
      (step.after Request.run).methods.toList.map Method.bare =
        step.before.methods.toList.map Method.bare ++
          ((newPart? step).bind Part.method?).toList := by
  obtain ⟨request, c⟩ := step
  cases request with
  | call call =>
    have hchange := change_run call c
    exact ⟨hchange.fields, hchange.methods⟩
  | lower =>
    have hsettles : c.Settles ((lower >>= fun _ => pure ()) c).state := by
      rw [state_bind_pure]
      exact repeatable_lower.moves c
    exact hsettles.members
  | generate =>
    have hsettles : c.Settles ((generate >>= fun _ => pure ()) c).state := by
      rw [state_bind_pure]
      exact repeatable_generate.moves c
    exact hsettles.members

theorem filterMap_newPart?_concat {α : Type} (view : Part → Option α)
    (made : List (Run.Step Class Request)) (step : Run.Step Class Request) :
    ((made ++ [step]).filterMap newPart?).filterMap view =
      (made.filterMap newPart?).filterMap view ++ ((newPart? step).bind view).toList := by
  rw [List.filterMap_append, List.filterMap_append]
  cases hpart : newPart? step with
  | none => simp [hpart]
  | some part => cases hview : view part <;> simp [hpart, hview]

theorem members_final {c : Class} (requests : List Request)
    (hpool : c.pool.Bounded) (hfields : c.fields.toList = []) (hmethods : c.methods.toList = []) :
    let parts := (Run.steps Request.run requests c).filterMap newPart?
    let last := Run.final Request.run requests c
    last.pool.Bounded ∧ last.fields.toList = parts.filterMap Part.field? ∧
      last.methods.toList.map Method.bare = parts.filterMap Part.method? := by
  refine Run.invariant Request.run (Q := fun _ => True) (P := fun made c => c.pool.Bounded ∧
    c.fields.toList = (made.filterMap newPart?).filterMap Part.field? ∧
    c.methods.toList.map Method.bare = (made.filterMap newPart?).filterMap Part.method?)
    (fun made step hmade _ => ?_) ⟨hpool, hfields, by rw [hmethods]; rfl⟩ fun _ _ => trivial
  obtain ⟨hbefore, hfields, hmethods⟩ := hmade
  obtain ⟨hfields', hmethods'⟩ := members_step step
  refine ⟨bounding_request step.call step.before hbefore, ?_, ?_⟩
  · rw [hfields', hfields, filterMap_newPart?_concat]
  · rw [hmethods', hmethods, filterMap_newPart?_concat]

/-- **Unique members.** Whatever is asked of a class, its members are found under their names and
descriptors and keep the order in which they were added. A member is refused if and only if one like
it is there, and a refused call leaves the class as it was. In a class file no two members of a
sort, no two interfaces and no two attributes of one owner have the same indices. -/
theorem members_unique (name parent : String) (flags : Flags .type) (requests : List Request) :
    let c := Run.final Request.run requests (.start name parent flags)
    let parts := (Run.steps Request.run requests (.start name parent flags)).filterMap newPart?
    (∀ key position field, c.fields.locate? key = some (position, field) ↔
      c.fields.toList[position]? = some field ∧ key = ⟨field.name, field.type.render⟩) ∧
    (∀ key position method, c.methods.locate? key = some (position, method) ↔
      c.methods.toList[position]? = some method ∧ key = ⟨method.name, method.type.render⟩) ∧
    c.fields.toList = parts.filterMap Part.field? ∧
    c.methods.toList.map Method.bare = parts.filterMap Part.method? ∧
    (∀ name type flags e, (addField name type flags c).result = .error e ↔
      e = .duplicateMember name type.render ∧
        ∃ field ∈ c.fields.toList, field.name = name ∧ field.type.render = type.render) ∧
    (∀ name type flags e, (addMethod name type flags c).result = .error e ↔
      e = .duplicateMember name type.render ∧
        ∃ method ∈ c.methods.toList, method.name = name ∧ method.type.render = type.render) ∧
    (∀ call : Call, (∀ addition, call ≠ .addConstant addition) → ∀ e,
      (call.run c).result = .error e → (call.run c).state = c) ∧
    ∀ file, (lower c).result = .ok file → file.Distinct := by
  intro c parts
  obtain ⟨hpool, hfields, hmethods⟩ :=
    members_final (c := .start name parent flags) requests (Nat.zero_le _) rfl rfl
  refine ⟨?_, ?_, hfields, hmethods, ?_, ?_, ?_, ?_⟩
  · intro key position field
    rw [Registry.locate?_eq_some_iff, eq_comm (a := key)]
    rfl
  · intro key position method
    rw [Registry.locate?_eq_some_iff, eq_comm (a := key)]
    rfl
  · intro name type flags e
    exact addField_eq_error_iff
  · intro name type flags e
    exact addMethod_eq_error_iff
  · intro call hcall e
    exact state_of_refused hcall
  · intro file hfile
    have hlower := gives_of_result hfile
    have hbounded : file.pool.Bounded := by
      rw [pool_of_gives_lower hlower]
      exact bounding_lower c hpool
    exact distinct_of_gives_lower hlower (Nat.lt_succ_of_le hbounded)

/-- Members that differ in their descriptors only, requests for the class file between them, and
refused calls. -/
def overloads : List Request :=
  [.call (.field "x" .int (.truncate .field 0x0002)), .generate,
    .call (.method "f" ⟨[], none⟩ (.truncate .method 0x0009)), .call (.interface "Runnable"),
    .call (.field "x" .int (.truncate .field 0x0001)), .lower,
    .call (.field "x" .string (.truncate .field 0x0002)), .call (.attach .code),
    .call (.method "f" ⟨[.int], none⟩ (.truncate .method 0x0009)), .call (.interface "Runnable"),
    .call (.attach .innerClasses), .call (.code "g" ⟨[], none⟩ []),
    .call (.code "f" ⟨[], none⟩ [.addStackMap, .branch (.leave none)])]

theorem members_unique_overloads :
    let c := Run.final Request.run overloads
      (.start "A" "java/lang/Object" (.truncate .type 0x0021))
    (∃ file, (lower c).result = .ok file ∧ file.fields.length = 2 ∧ file.methods.length = 2 ∧
      file.Distinct) ∧
    (∃ e, ((Call.attachToMethod "f" ⟨[], none⟩ .innerClasses).run c).result = .error e) ∧
    ((Call.attachToMethod "f" ⟨[], none⟩ .innerClasses).run c).state = c ∧
    (addField "x" .int (.truncate .field 0) c).result = .error (.duplicateMember "x" "I") := by
  intro c
  obtain ⟨-, -, -, -, hfield, -, hrefused, hdistinct⟩ :=
    members_unique "A" "java/lang/Object" (.truncate .type 0x0021) overloads
  have hlower : ((lower c).result.toOption.map fun file =>
      (file.fields.length, file.methods.length)) = some (2, 2) := by decide +kernel
  obtain ⟨file, hfile, hfields, hmethods⟩ : ∃ file, (lower c).result = .ok file ∧
      file.fields.length = 2 ∧ file.methods.length = 2 := by
    cases hresult : (lower c).result with
    | error e =>
      rw [hresult] at hlower
      cases hlower
    | ok file =>
      rw [hresult] at hlower
      exact ⟨file, rfl, Prod.mk.inj (Option.some.inj hlower)⟩
  obtain ⟨e, he⟩ : ∃ e,
      ((Call.attachToMethod "f" ⟨[], none⟩ .innerClasses).run c).result = .error e := ⟨_, rfl⟩
  refine ⟨⟨file, hfile, hfields, hmethods, hdistinct file hfile⟩, ⟨e, he⟩,
    hrefused _ (fun _ => nofun) e he, (hfield _ _ _ _).mpr ⟨rfl, ?_⟩⟩
  exact ⟨⟨"x", .int, .truncate .field 0x0002⟩, by decide +kernel, rfl, rfl⟩

end Class

end Classfile
