import Classfile.Proofs.Registry
import Classfile.Proofs.Repetition
import Classfile.StackMap
import Classfile.InnerClasses

/-!
# Growth of the pool

Nothing ever leaves a pool or changes its place in it. Whatever is read from a pool through an index
is read from every later pool as well, and whatever was added is found there when it is asked for
again.
-/

namespace Classfile.Pool

open Classfile.Action

variable {kind : IndexKind} {α : Type}

/-- The later pool has the entries of the earlier one, then others. -/
def GrowsTo (old new : Pool) : Prop := old.toList <+: new.toList

instance : Std.Refl GrowsTo := ⟨fun _ => List.prefix_rfl⟩

instance : Trans GrowsTo GrowsTo GrowsTo := ⟨List.IsPrefix.trans⟩

theorem GrowsTo.refl (pool : Pool) : pool.GrowsTo pool := List.prefix_rfl

theorem GrowsTo.trans {a b c : Pool} (hab : a.GrowsTo b) (hbc : b.GrowsTo c) : a.GrowsTo c :=
  List.IsPrefix.trans hab hbc

theorem GrowsTo.getElem? {old new : Pool} (h : old.GrowsTo new) {i : Nat} {constant : Constant}
    (hi : old.entries[i]? = some constant) : new.entries[i]? = some constant := by
  obtain ⟨rest, hrest⟩ := h
  rw [← Array.getElem?_toList] at hi ⊢
  have hlt : i < old.entries.toList.length := (List.getElem?_eq_some_iff.mp hi).1
  rw [← hi]
  change new.toList[i]? = _
  rw [← hrest]
  exact List.getElem?_append_left hlt

theorem GrowsTo.constant? {old new : Pool} (h : old.GrowsTo new) {index : Index kind}
    {constant : Constant} (hold : old.constant? index = some constant) :
    new.constant? index = some constant := by
  unfold Pool.constant? at hold ⊢
  split at hold
  · cases hold
  · exact h.getElem? hold

theorem GrowsTo.text? {old new : Pool} (h : old.GrowsTo new) {index : Index .utf8} {text : String}
    (hold : old.text? index = some text) : new.text? index = some text := by
  unfold Pool.text? at hold ⊢
  split at hold
  · next heq =>
    rw [h.constant? heq]
    exact hold
  · cases hold

theorem GrowsTo.memberDescriptor? {old new : Pool} (h : old.GrowsTo new)
    {index : Index .nameAndType} {text : String} (hold : old.memberDescriptor? index = some text) :
    new.memberDescriptor? index = some text := by
  unfold Pool.memberDescriptor? at hold ⊢
  split at hold
  · next heq =>
    rw [h.constant? heq]
    exact h.text? hold
  · cases hold

theorem GrowsTo.descriptor? {old new : Pool} (h : old.GrowsTo new) {index : Index kind}
    {text : String} (hold : old.descriptor? index = some text) :
    new.descriptor? index = some text := by
  unfold Pool.descriptor? at hold ⊢
  cases hconstant : old.constant? index with
  | none => simp [hconstant] at hold
  | some constant =>
    rw [hconstant] at hold
    rw [h.constant? hconstant]
    cases constant with
    | utf8 _ => cases hold
    | integer _ => exact hold
    | string _ => exact hold
    | type name =>
      obtain ⟨name, hname, rfl⟩ := Option.map_eq_some_iff.mp hold
      simp [h.text? hname]
    | nameAndType _ _ => exact h.text? hold
    | fieldRef _ _ => exact h.memberDescriptor? hold
    | methodRef _ _ => exact h.memberDescriptor? hold

/-! ### Actions that let the pool grow -/

/-- A constant is found, or it is added at the end, or there is no room for it. -/
theorem add_cases (constant : Constant) (pool : Pool) :
    (∃ position, pool.toList[position]? = some constant ∧
      add constant pool = ⟨.ok (indexAt position), pool, []⟩) ∨
    (constant ∉ pool.toList ∧ pool.size < capacity ∧
      (add constant pool).result = .ok (indexAt pool.size) ∧
      (add constant pool).state.toList = pool.toList ++ [constant]) ∨
    constant ∉ pool.toList ∧ capacity ≤ pool.size ∧
      add constant pool = ⟨.error (.poolFull constant), pool, []⟩ := by
  unfold add
  split
  · next position hfind =>
    have hposition := Registry.find?_eq_some_iff.mp hfind
    rw [Option.map_id', ← Array.getElem?_toList] at hposition
    exact .inl ⟨position, hposition, rfl⟩
  · next hfind =>
    have hnew : constant ∉ pool.toList := fun hmem =>
      Registry.find?_eq_none_iff.mp hfind constant (Array.mem_toList_iff.mp hmem) rfl
    dsimp only
    split
    · next hroom => exact .inr (.inl ⟨hnew, hroom, rfl, Registry.toList_push hfind⟩)
    · next hfull => exact .inr (.inr ⟨hnew, Nat.le_of_not_lt hfull, rfl⟩)

/-- A constant that was added stands in the pool, at the position its index tells. -/
theorem exists_position_of_gives_add {constant : Constant} {pool pool' : Pool}
    {index : Index constant.kind} (h : Gives (add constant) pool index pool') :
    ∃ position, index = indexAt position ∧ pool'.entries[position]? = some constant := by
  obtain ⟨hresult, rfl⟩ := h
  obtain ⟨position, hposition, hadd⟩ | ⟨-, -, hnew, hlist⟩ | ⟨-, -, hadd⟩ :=
    add_cases constant pool
  · rw [hadd] at hresult ⊢
    cases hresult
    rw [Registry.toList, Array.getElem?_toList] at hposition
    exact ⟨position, rfl, hposition⟩
  · rw [hnew] at hresult
    cases hresult
    refine ⟨pool.size, rfl, ?_⟩
    rw [← Array.getElem?_toList]
    change (add constant pool).state.toList[pool.size]? = _
    rw [hlist]
    exact List.getElem?_concat_length
  · rw [hadd] at hresult
    cases hresult

theorem gives_add_of_getElem? {constant : Constant} {pool : Pool} {position : Nat}
    (h : pool.entries[position]? = some constant) :
    Gives (add constant) pool (indexAt position) pool := by
  have hfind : pool.find? constant = some position := by
    rw [Registry.find?_eq_some_iff, h]
    rfl
  rw [Gives, add]
  split
  · next found hfound =>
    rw [hfind] at hfound
    cases hfound
    exact ⟨rfl, rfl⟩
  · next hmissing =>
    rw [hfind] at hmissing
    cases hmissing

/-- The pool after the action is the one before it with entries added, also after a failure. -/
abbrev Growing (x : Action Pool α) : Prop := Moves GrowsTo x

theorem growing_add (constant : Constant) : Growing (add constant) := by
  intro pool
  obtain ⟨_, -, h⟩ | ⟨-, -, -, h⟩ | ⟨-, -, h⟩ := add_cases constant pool
  · rw [h]
    exact GrowsTo.refl pool
  · exact ⟨[constant], h.symm⟩
  · rw [h]
    exact GrowsTo.refl pool

theorem repeats_add (constant : Constant) : Repeats GrowsTo (add constant) where
  moves := growing_add constant
  gives h hlater := by
    obtain ⟨position, rfl, hposition⟩ := exists_position_of_gives_add h
    exact gives_add_of_getElem? (hlater.getElem? hposition)
  fails {pool e pool'} h := by
    obtain ⟨_, -, hadd⟩ | ⟨-, -, hnew, -⟩ | ⟨-, -, hadd⟩ := add_cases constant pool
    · rw [Fails, hadd] at h
      cases h.1
    · rw [Fails, hnew] at h
      cases h.1
    · have hpool : pool = pool' := by simpa only [hadd] using h.2
      exact hpool ▸ h

theorem repeats_addUtf8 (text : String) : Repeats GrowsTo (addUtf8 text) := repeats_add _

theorem repeats_addInteger (value : Int32) : Repeats GrowsTo (addInteger value) := repeats_add _

theorem repeats_addClass (name : String) : Repeats GrowsTo (addClass name) :=
  (repeats_addUtf8 name).bind fun _ => repeats_add _

theorem repeats_addString (text : String) : Repeats GrowsTo (addString text) :=
  (repeats_addUtf8 text).bind fun _ => repeats_add _

theorem repeats_addNameAndType (name descriptor : String) :
    Repeats GrowsTo (addNameAndType name descriptor) :=
  (repeats_addUtf8 name).bind fun _ => (repeats_addUtf8 descriptor).bind fun _ => repeats_add _

theorem repeats_addFieldRef (owner name descriptor : String) :
    Repeats GrowsTo (addFieldRef owner name descriptor) :=
  (repeats_addClass owner).bind fun _ =>
    (repeats_addNameAndType name descriptor).bind fun _ => repeats_add _

theorem repeats_addMethodRef (owner name descriptor : String) :
    Repeats GrowsTo (addMethodRef owner name descriptor) :=
  (repeats_addClass owner).bind fun _ =>
    (repeats_addNameAndType name descriptor).bind fun _ => repeats_add _

theorem repeats_toAttribute (body : Layout.AttributeBody) : Repeats GrowsTo body.toAttribute :=
  (repeats_addUtf8 _).bind fun _ => (repeats_ofExcept _).bind fun _ => repeats_pure _

theorem repeats_verification (type : FieldType) : Repeats GrowsTo type.verification := by
  unfold FieldType.verification
  split
  · split
    · exact repeats_pure _
    · exact repeats_fail _
  · exact (repeats_addClass _).bind fun _ => (repeats_report _).bind fun _ => repeats_pure _

theorem repeats_encode (delta : UInt16) (frame : Frame) : Repeats GrowsTo (frame.encode delta) :=
  (repeats_traverse repeats_verification _).bind fun _ =>
    (repeats_traverse repeats_verification _).bind fun _ => repeats_pure _

theorem repeats_compress (frames : List Frame) : Repeats GrowsTo (StackMap.compress frames) := by
  unfold StackMap.compress
  split
  · exact (repeats_report _).bind fun _ => repeats_fail _
  · exact repeats_traverse (fun (delta, frame) =>
      (repeats_report _).bind fun _ => repeats_encode delta frame) _

theorem repeats_stackMap (frames : Array Frame) : Repeats GrowsTo (StackMap.lower frames) :=
  (repeats_compress _).bind fun _ => repeats_toAttribute _

theorem repeats_lowerEntry (outer : String) (entry : InnerClassEntry) :
    Repeats GrowsTo (InnerClasses.lowerEntry outer entry) :=
  (repeats_addClass _).bind fun _ => (repeats_addClass _).bind fun _ =>
    (repeats_addUtf8 _).bind fun _ => repeats_pure _

theorem repeats_innerClasses (list : InnerClasses) : Repeats GrowsTo list.lower :=
  (repeats_traverse (repeats_lowerEntry _) _).bind fun _ => repeats_toAttribute _

/-! ### Everything that can be asked of a pool -/

inductive Addition where
  | utf8 (text : String)
  | integer (value : Int32)
  | type (name : String)
  | string (text : String)
  | nameAndType (name descriptor : String)
  | fieldRef (owner name descriptor : String)
  | methodRef (owner name descriptor : String)
  /-- Names an attribute and turns its body into bytes. -/
  | attributeOf (body : Layout.AttributeBody)

/-- Adds what is asked for and returns its index, for an attribute the index of its name. -/
def Addition.run : Addition → Action Pool (Index .any)
  | utf8 text => return (← addUtf8 text).untyped
  | integer value => addInteger value
  | type name => return (← addClass name).untyped
  | string text => return (← addString text).untyped
  | nameAndType name descriptor => return (← addNameAndType name descriptor).untyped
  | fieldRef owner name descriptor => return (← addFieldRef owner name descriptor).untyped
  | methodRef owner name descriptor => return (← addMethodRef owner name descriptor).untyped
  | attributeOf body => return (← body.toAttribute).name.untyped

theorem repeats_run (addition : Addition) : Repeats GrowsTo addition.run := by
  cases addition with
  | utf8 text => exact (repeats_addUtf8 text).bind fun _ => repeats_pure _
  | integer value => exact repeats_addInteger value
  | type name => exact (repeats_addClass name).bind fun _ => repeats_pure _
  | string text => exact (repeats_addString text).bind fun _ => repeats_pure _
  | nameAndType name descriptor =>
    exact (repeats_addNameAndType name descriptor).bind fun _ => repeats_pure _
  | fieldRef owner name descriptor =>
    exact (repeats_addFieldRef owner name descriptor).bind fun _ => repeats_pure _
  | methodRef owner name descriptor =>
    exact (repeats_addMethodRef owner name descriptor).bind fun _ => repeats_pure _
  | attributeOf body => exact (repeats_toAttribute body).bind fun _ => repeats_pure _

end Classfile.Pool
