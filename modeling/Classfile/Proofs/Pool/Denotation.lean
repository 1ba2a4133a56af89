import Classfile.Proofs.Pool.Growth

/-!
# What indices stand for

Indices are handed out while the pool still grows, and are looked up in the list of constants that
is written at the end. An action on the pool denotes a property of its result and a list of
constants if the result has it in every list that the pool may grow to.
-/

namespace Classfile

open Classfile.Action

variable {α β : Type} {kind : IndexKind}

/-! ### Looking up -/

/-- Indices start at 1. -/
def constantAt? (constants : List Constant) (index : Index kind) : Option Constant :=
  match index.val.toNat with
  | 0 => none
  | i + 1 => constants[i]?

def textAt? (constants : List Constant) (index : Index .utf8) : Option String :=
  match constantAt? constants index with
  | some (.utf8 text) => some text
  | _ => none

def classAt? (constants : List Constant) (index : Index .type) : Option String :=
  match constantAt? constants index with
  | some (.type name) => textAt? constants name
  | _ => none

namespace Pool

/-- The constants start with those of the pool, and there are as many as indices can tell apart. -/
def Within (pool : Pool) (constants : List Constant) : Prop :=
  pool.toList <+: constants ∧ constants.length < 0xFFFF

theorem GrowsTo.within {old new : Pool} {constants : List Constant} (h : old.GrowsTo new)
    (hnew : new.Within constants) : old.Within constants :=
  ⟨List.IsPrefix.trans h hnew.1, hnew.2⟩

theorem Within.constantAt? {pool : Pool} {constants : List Constant} (h : pool.Within constants)
    {position : Nat} {constant : Constant} (hposition : pool.entries[position]? = some constant) :
    constantAt? constants (indexAt position : Index kind) = some constant := by
  obtain ⟨⟨rest, rfl⟩, hlength⟩ := h
  have hlt : position < pool.toList.length := by
    have := (Array.getElem?_eq_some_iff.mp hposition).1
    simpa [Registry.toList] using this
  rw [List.length_append] at hlength
  have hfits : position + 1 < 0x10000 := by omega
  have hindex : (indexAt position : Index kind).val.toNat = position + 1 :=
    UInt16.toNat_ofNat_of_lt' hfits
  rw [Classfile.constantAt?, hindex]
  change (pool.toList ++ rest)[position]? = _
  rw [List.getElem?_append_left hlt, Registry.toList, Array.getElem?_toList, hposition]

/-! ### Denotations -/

/-- The result of the action has the property in every list the pool may grow to. -/
def Denotes (x : Action Pool α) (P : List Constant → α → Prop) : Prop :=
  ∀ ⦃pool pool' : Pool⦄ ⦃a : α⦄ ⦃constants : List Constant⦄,
    Gives x pool a pool' → pool'.Within constants → P constants a

/-- The second step may rely on what the first denotes. -/
theorem Denotes.bind {x : Action Pool α} {f : α → Action Pool β} {P : List Constant → α → Prop}
    {Q : List Constant → β → Prop} (hx : Denotes x P) (hgrowing : ∀ a, Growing (f a))
    (hf : ∀ a, Denotes (f a) fun constants b => P constants a → Q constants b) :
    Denotes (x >>= f) Q := by
  intro pool pool' b constants h hwithin
  obtain ⟨a, mid, ha, hb⟩ := gives_bind.mp h
  exact hf a hb hwithin (hx ha (((hgrowing a).of_gives hb).within hwithin))

theorem denotes_pure {a : α} {P : List Constant → α → Prop} (h : ∀ constants, P constants a) :
    Denotes (pure a) P := by
  intro pool pool' b constants hgives _
  obtain ⟨rfl, -⟩ := gives_pure.mp hgives
  exact h constants

theorem denotes_add (constant : Constant) :
    Denotes (add constant) fun constants index => constantAt? constants index = some constant := by
  intro pool pool' index constants h hwithin
  obtain ⟨position, rfl, hposition⟩ := exists_position_of_gives_add h
  exact hwithin.constantAt? hposition

theorem denotes_addUtf8 (text : String) :
    Denotes (addUtf8 text) fun constants index => textAt? constants index = some text := by
  intro pool pool' index constants h hwithin
  have hconstant : constantAt? constants index = some (.utf8 text) := denotes_add _ h hwithin
  rw [textAt?, hconstant]

theorem denotes_addClass (name : String) :
    Denotes (addClass name) fun constants index => classAt? constants index = some name := by
  refine (denotes_addUtf8 name).bind (fun _ => growing_add _) fun text => ?_
  intro pool pool' index constants h hwithin htext
  have hconstant : constantAt? constants index = some (.type text) := denotes_add _ h hwithin
  rw [classAt?, hconstant]
  exact htext

/-! ### Views of results -/

variable {δ : Type}

/-- The result is resolved to what it was made from. -/
def Shows (resolve : List Constant → β → Option δ) (view : Option δ) (constants : List Constant)
    (b : β) : Prop :=
  ∃ d, view = some d ∧ resolve constants b = some d

/-- If every element shows as it should, the results of a traversal do so in order. -/
theorem denotes_traverse {f : α → Action Pool β} {resolve : List Constant → β → Option δ}
    {view : α → Option δ} (hgrowing : ∀ a, Growing (f a))
    (hf : ∀ a, Denotes (f a) (Shows resolve (view a))) (items : List α) :
    Denotes (Action.traverse f items)
      (Shows (fun constants results => results.mapM (resolve constants)) (items.mapM view)) := by
  induction items with
  | nil =>
    intro pool pool' results constants h hwithin
    obtain ⟨rfl, -⟩ := gives_traverse_nil.mp h
    exact ⟨[], rfl, rfl⟩
  | cons a rest ih =>
    intro pool pool' results constants h hwithin
    obtain ⟨b, mid, more, hb, hmore, rfl⟩ := gives_traverse_cons.mp h
    obtain ⟨d, hview, hresolve⟩ :=
      hf a hb (((moves_traverse hgrowing rest).of_gives hmore).within hwithin)
    obtain ⟨ds, hviews, hresolves⟩ := ih hmore hwithin
    exact ⟨d :: ds, by simp [hview, hviews], by simp [hresolve, hresolves]⟩

theorem denotes_traverse_map {f : α → Action Pool β} {resolve : List Constant → β → Option δ}
    {view : α → δ} (hgrowing : ∀ a, Growing (f a))
    (hf : ∀ a, Denotes (f a) fun constants b => resolve constants b = some (view a))
    (items : List α) :
    Denotes (Action.traverse f items) fun constants results =>
      results.mapM (resolve constants) = some (items.map view) := by
  intro pool pool' results constants h hwithin
  have hshows : ∀ a, Denotes (f a) (Shows resolve (some (view a))) :=
    fun a _ _ _ _ ha hlater => ⟨view a, rfl, hf a ha hlater⟩
  obtain ⟨described, hviews, hresults⟩ := denotes_traverse hgrowing hshows items h hwithin
  have hmap : items.mapM (fun a => some (view a)) = some (items.map view) := List.mapM_pure
  rw [hmap] at hviews
  cases hviews
  exact hresults

end Pool

end Classfile
