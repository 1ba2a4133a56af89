import Std.Data.TreeMap

/-!
# Registries

A registry holds entries in the order of their arrival, no two with the same key. A search tree
leads from a key to the entry's position, and the two views always agree.
-/

namespace Classfile

structure Registry {α κ : Type} [Ord κ] (key : α → κ) where
  entries : Array α
  slots : Std.TreeMap κ Nat
  slots_iff : ∀ k i, slots[k]? = some i ↔ entries[i]?.map key = some k

namespace Registry

variable {α κ : Type} [Ord κ] {key : α → κ}

def size (r : Registry key) : Nat := r.entries.size

/-- Position of the entry with a key. -/
def find? (r : Registry key) (k : κ) : Option Nat := r.slots[k]?

/-- The entry with a key, and its position. -/
def locate? (r : Registry key) (k : κ) : Option (Nat × α) := do
  let position ← r.find? k
  let entry ← r.entries[position]?
  return (position, entry)

def get? (r : Registry key) (k : κ) : Option α := (r.locate? k).map Prod.snd

def toList (r : Registry key) : List α := r.entries.toList

theorem find?_eq_some_iff {r : Registry key} {k : κ} {i : Nat} :
    r.find? k = some i ↔ r.entries[i]?.map key = some k :=
  r.slots_iff k i

theorem find?_eq_none_iff {r : Registry key} {k : κ} :
    r.find? k = none ↔ ∀ a ∈ r.entries, key a ≠ k := by
  rw [Option.eq_none_iff_forall_ne_some]
  constructor
  · intro h a ha hk
    obtain ⟨i, hi, rfl⟩ := Array.mem_iff_getElem.mp ha
    exact h i (find?_eq_some_iff.mpr (by simp [hi, hk]))
  · intro h i hi
    obtain ⟨a, ha, hk⟩ := Option.map_eq_some_iff.mp (find?_eq_some_iff.mp hi)
    exact h a (Array.mem_of_getElem? ha) hk

variable [Std.TransOrd κ] [Std.LawfulEqOrd κ]

def empty : Registry key := ⟨#[], ∅, by simp⟩

/-- The two views still agree after an entry with a new key. -/
theorem slots_iff_insert {r : Registry key} {a : α} (fresh : r.find? (key a) = none) :
    ∀ k i, (r.slots.insert (key a) r.entries.size)[k]? = some i ↔
      (r.entries.push a)[i]?.map key = some k := by
  intro k i
  rw [Std.TreeMap.getElem?_insert, Array.getElem?_push]
  have hlt : ∀ j, r.slots[k]? = some j → j < r.entries.size := by
    intro j hj
    obtain ⟨b, hb, _⟩ := Option.map_eq_some_iff.mp ((r.slots_iff k j).mp hj)
    exact (Array.getElem?_eq_some_iff.mp hb).1
  by_cases hk : key a = k
  · subst hk
    have hnone : ∀ j : Nat, r.entries[j]?.map key ≠ some (key a) := by
      intro j hj
      have := (r.slots_iff _ _).mpr hj
      simp_all [find?]
    by_cases hi : i = r.entries.size
    · simp [hi]
    · have := hnone i
      simp_all [eq_comm]
  · have hcmp : compare (key a) k ≠ .eq := fun h => hk (Std.compare_eq_iff_eq.mp h)
    rw [if_neg hcmp]
    by_cases hi : i = r.entries.size
    · subst hi
      simp only [if_pos, Option.map_some, Option.some.injEq, hk, iff_false]
      intro h
      exact Nat.lt_irrefl _ (hlt _ h)
    · simp only [hi, if_false]
      exact r.slots_iff k i

/-- Adds an entry with a new key at the end. The position is taken before the array grows. -/
def push (r : Registry key) (a : α) (fresh : r.find? (key a) = none) : Registry key :=
  let slots := r.slots.insert (key a) r.entries.size
  ⟨r.entries.push a, slots, slots_iff_insert fresh⟩

/-- Replaces the entries by others with the same keys. -/
def replace (r : Registry key) (entries : Array α)
    (same : entries.map key = r.entries.map key) : Registry key where
  entries := entries
  slots := r.slots
  slots_iff k i := by
    rw [r.slots_iff, ← Array.getElem?_map, ← Array.getElem?_map, same]

/-- Changes the entry at a position, but not its key. -/
def modify (r : Registry key) (i : Nat) (f : α → α) (same : ∀ a, key (f a) = key a) :
    Registry key :=
  r.replace (r.entries.modify i f) (by
    apply Array.ext_getElem?
    intro j
    rw [Array.getElem?_map, Array.getElem?_map, Array.getElem?_modify]
    split <;> cases r.entries[j]? <;> simp [same])

end Registry

end Classfile
