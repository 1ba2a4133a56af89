import Classfile.Registry

/-!
# Registries as lists

A registry is looked at through the list of its entries. A key is held by one entry at most, and a
change that keeps the keys is seen at one position only.
-/

namespace Classfile

attribute [ext] Registry

namespace Registry

variable {α β κ : Type} [Ord κ] {key : α → κ} {r : Registry key}

theorem length_toList (r : Registry key) : r.toList.length = r.size := rfl

theorem get?_key {a : α} (h : a ∈ r.toList) : r.get? (key a) = some a := by
  obtain ⟨i, hi⟩ := List.mem_iff_getElem?.mp h
  rw [toList, Array.getElem?_toList] at hi
  have hfind : r.find? (key a) = some i := find?_eq_some_iff.mpr (by rw [hi]; rfl)
  simp [get?, locate?, hfind, hi]

theorem locate?_eq_some_iff {k : κ} {i : Nat} {a : α} :
    r.locate? k = some (i, a) ↔ r.toList[i]? = some a ∧ key a = k := by
  simp only [locate?, toList, Array.getElem?_toList, Option.bind_eq_bind, Option.bind_eq_some_iff]
  constructor
  · rintro ⟨j, hfind, b, hb, heq⟩
    cases heq
    have hkey := find?_eq_some_iff.mp hfind
    rw [hb] at hkey
    exact ⟨hb, Option.some.inj hkey⟩
  · rintro ⟨ha, rfl⟩
    exact ⟨i, find?_eq_some_iff.mpr (by rw [ha]; rfl), a, ha, rfl⟩

theorem exists_key_iff {k : κ} : (∃ a ∈ r.toList, key a = k) ↔ r.find? k ≠ none := by
  rw [Ne, find?_eq_none_iff]
  simp [toList]

/-- No two entries have the same key. -/
theorem position_unique {i j : Nat} {a b : α} (ha : r.toList[i]? = some a)
    (hb : r.toList[j]? = some b) (hkey : key a = key b) : i = j ∧ a = b := by
  have hi := locate?_eq_some_iff.mpr ⟨ha, hkey⟩
  have hj := locate?_eq_some_iff.mpr ⟨hb, rfl⟩
  rw [hi] at hj
  cases hj
  exact ⟨rfl, rfl⟩

theorem nodup_keys (r : Registry key) : (r.toList.map key).Nodup := by
  rw [List.Nodup, List.pairwise_map, List.pairwise_iff_getElem]
  intro i j hi hj hij hkey
  have hsame := position_unique (List.getElem?_eq_getElem hi) (List.getElem?_eq_getElem hj) hkey
  omega

theorem toList_push [Std.TransOrd κ] [Std.LawfulEqOrd κ] {a : α}
    (fresh : r.find? (key a) = none) : (r.push a fresh).toList = r.toList ++ [a] := by
  simp [push, toList]

/-- The search tree after the entries have arrived one by one. -/
def treeOf (key : α → κ) (entries : List α) : Std.TreeMap κ Nat :=
  entries.zipIdx.foldl (fun tree entry => tree.insert (key entry.1) entry.2) ∅

/-- The search tree is the one that comes from the entries alone. -/
def Grown (r : Registry key) : Prop := r.slots = treeOf key r.toList

theorem Grown.push [Std.TransOrd κ] [Std.LawfulEqOrd κ] (h : r.Grown) {a : α}
    (fresh : r.find? (key a) = none) : (r.push a fresh).Grown := by
  have htree : treeOf key (r.toList ++ [a]) = (treeOf key r.toList).insert (key a) r.size := by
    simp [treeOf, List.zipIdx_append, List.foldl_append, length_toList]
  calc (r.push a fresh).slots
      = r.slots.insert (key a) r.size := rfl
    _ = (treeOf key r.toList).insert (key a) r.size := by rw [h]
    _ = treeOf key (r.push a fresh).toList := by rw [toList_push, htree]

theorem Grown.eq {s : Registry key} (hr : r.Grown) (hs : s.Grown) (h : r.toList = s.toList) :
    r = s := by
  apply Registry.ext
  · exact Array.toList_inj.mp h
  · rw [hr, hs, h]

variable {f : α → α} {same : ∀ a, key (f a) = key a}

theorem getElem?_toList_modify (i j : Nat) :
    (r.modify i f same).toList[j]? = if i = j then r.toList[j]?.map f else r.toList[j]? := by
  simp only [modify, replace, toList, Array.getElem?_toList, Array.getElem?_modify]

/-- An entry that stays as it is leaves the registry as it is. -/
theorem modify_eq_self {i : Nat} {a : α} (ha : r.toList[i]? = some a) (hf : f a = a) :
    r.modify i f same = r := by
  apply Registry.ext
  · apply Array.ext_getElem?
    intro j
    rw [← Array.getElem?_toList, ← Array.getElem?_toList]
    refine (getElem?_toList_modify i j).trans ?_
    by_cases hij : i = j
    · subst hij
      rw [if_pos rfl, ha, Option.map_some, hf]
      exact ha.symm
    · exact if_neg hij
  · rfl

/-- A change that a view does not see leaves the view of all entries alone. -/
theorem map_toList_modify (i : Nat) {view : α → β} (hview : ∀ a, view (f a) = view a) :
    (r.modify i f same).toList.map view = r.toList.map view := by
  apply List.ext_getElem?
  intro j
  rw [List.getElem?_map, List.getElem?_map, getElem?_toList_modify]
  split
  · cases r.toList[j]? <;> simp [hview]
  · rfl

theorem locate?_modify (same : ∀ a, key (f a) = key a) {k : κ} {i : Nat} {a : α}
    (h : r.locate? k = some (i, a)) : (r.modify i f same).locate? k = some (i, f a) := by
  obtain ⟨ha, hkey⟩ := locate?_eq_some_iff.mp h
  apply locate?_eq_some_iff.mpr
  rw [getElem?_toList_modify, if_pos rfl, ha]
  exact ⟨rfl, (same a).trans hkey⟩

/-- A change to the entry of one key is not seen under another. -/
theorem locate?_modify_of_ne (same : ∀ a, key (f a) = key a) {j k : κ} {i : Nat} {a : α}
    (h : r.locate? k = some (i, a)) (hne : j ≠ k) :
    (r.modify i f same).locate? j = r.locate? j := by
  obtain ⟨ha, hkey⟩ := locate?_eq_some_iff.mp h
  apply Option.ext
  rintro ⟨position, b⟩
  rw [locate?_eq_some_iff, locate?_eq_some_iff, getElem?_toList_modify]
  by_cases hposition : i = position
  · subst hposition
    rw [if_pos rfl, ha, Option.map_some, Option.some.injEq, Option.some.injEq]
    constructor
    · rintro ⟨rfl, hj⟩
      exact absurd (hj.symm.trans ((same a).trans hkey)) hne
    · rintro ⟨rfl, hj⟩
      exact absurd (hj.symm.trans hkey) hne
  · rw [if_neg hposition]

/-- Registries with the same search tree are told apart by what they hold under some key. -/
theorem eq_of_locate? {s : Registry key} (hslots : r.slots = s.slots)
    (h : ∀ k, r.locate? k = s.locate? k) : r = s := by
  refine Registry.ext (Array.ext_getElem? fun i => ?_) hslots
  rw [← Array.getElem?_toList, ← Array.getElem?_toList]
  apply Option.ext
  intro a
  have hr := locate?_eq_some_iff (r := r) (k := key a) (i := i) (a := a)
  have hs := locate?_eq_some_iff (r := s) (k := key a) (i := i) (a := a)
  rw [h (key a), and_iff_left rfl] at hr
  rw [and_iff_left rfl] at hs
  exact hr.symm.trans hs

end Registry

end Classfile
