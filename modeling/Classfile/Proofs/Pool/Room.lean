import Classfile.Proofs.Pool.Interning
import Classfile.Proofs.Pool.Reachable
import Mathlib.Data.Finset.Card

/-!
# Room in the pool

A constant is known by what it was made from, whatever its index. There is room in a pool for the
constants that are wanted if those of them that the pool lacks fit below its capacity. Then none of
them is refused, and after one of them was added there is still room for all.
-/

namespace Classfile

open Classfile.Action

variable {kind : IndexKind} {constants : List Constant}

/-! ### Constants told apart by what they were made from -/

theorem constantAt?_eq_some_iff {index : Index kind} {constant : Constant} :
    constantAt? constants index = some constant ↔
      1 ≤ index.val.toNat ∧ constants[index.val.toNat - 1]? = some constant := by
  unfold constantAt?
  cases index.val.toNat with
  | zero => simp
  | succ position => simp

theorem textAt?_eq_some_iff {index : Index .utf8} {text : String} :
    textAt? constants index = some text ↔ constantAt? constants index = some (.utf8 text) := by
  unfold textAt?
  split
  · next found hfound => simp [hfound]
  · next hother =>
    constructor
    · intro h
      cases h
    · exact fun h => absurd h (hother text)

theorem classAt?_eq_some_iff {index : Index .type} {name : String} :
    classAt? constants index = some name ↔
      ∃ text, constantAt? constants index = some (.type text) ∧
        textAt? constants text = some name := by
  unfold classAt?
  split
  · next text htext => simp [htext]
  · next hother =>
    constructor
    · intro h
      cases h
    · rintro ⟨text, htext, -⟩
      exact absurd htext (hother text)

theorem memberAt?_eq_some_iff {index : Index .nameAndType} {name descriptor : String} :
    memberAt? constants index = some (name, descriptor) ↔
      ∃ first second, constantAt? constants index = some (.nameAndType first second) ∧
        textAt? constants first = some name ∧ textAt? constants second = some descriptor := by
  unfold memberAt?
  split
  · next first second hpair =>
    simp [hpair, Option.bind_eq_some_iff]
  · next hother =>
    constructor
    · intro h
      cases h
    · rintro ⟨first, second, hpair, -⟩
      exact absurd hpair (hother first second)

section Distinct

variable (hdistinct : constants.Nodup)
include hdistinct

theorem constantAt?_inj {a b : Index kind} {constant : Constant}
    (ha : constantAt? constants a = some constant) (hb : constantAt? constants b = some constant) :
    a = b := by
  obtain ⟨hposA, ha⟩ := constantAt?_eq_some_iff.mp ha
  obtain ⟨hposB, hb⟩ := constantAt?_eq_some_iff.mp hb
  have hlt := (List.getElem?_eq_some_iff.mp ha).1
  have hposition := (List.getElem?_inj hlt hdistinct).mp (ha.trans hb.symm)
  exact Index.eq_iff.mpr (UInt16.toNat_inj.mp (by omega))

theorem textAt?_inj {a b : Index .utf8} {text : String} (ha : textAt? constants a = some text)
    (hb : textAt? constants b = some text) : a = b :=
  constantAt?_inj hdistinct (textAt?_eq_some_iff.mp ha) (textAt?_eq_some_iff.mp hb)

theorem classAt?_inj {a b : Index .type} {name : String} (ha : classAt? constants a = some name)
    (hb : classAt? constants b = some name) : a = b := by
  obtain ⟨textA, ha, hnameA⟩ := classAt?_eq_some_iff.mp ha
  obtain ⟨textB, hb, hnameB⟩ := classAt?_eq_some_iff.mp hb
  obtain rfl := textAt?_inj hdistinct hnameA hnameB
  exact constantAt?_inj hdistinct ha hb

theorem memberAt?_inj {a b : Index .nameAndType} {member : String × String}
    (ha : memberAt? constants a = some member) (hb : memberAt? constants b = some member) :
    a = b := by
  obtain ⟨_, _, ha, hnameA, hdescriptorA⟩ := memberAt?_eq_some_iff.mp ha
  obtain ⟨_, _, hb, hnameB, hdescriptorB⟩ := memberAt?_eq_some_iff.mp hb
  obtain rfl := textAt?_inj hdistinct hnameA hnameB
  obtain rfl := textAt?_inj hdistinct hdescriptorA hdescriptorB
  exact constantAt?_inj hdistinct ha hb

end Distinct

namespace Pool

deriving instance DecidableEq for Addition

/-- What a constant was made from, one rule for each kind. -/
inductive MadeFrom (constants : List Constant) : Constant → Addition → Prop where
  | utf8 {text : String} : MadeFrom constants (.utf8 text) (.utf8 text)
  | integer {value : Int32} : MadeFrom constants (.integer value) (.integer value)
  | type {index : Index .utf8} {name : String} (hname : textAt? constants index = some name) :
      MadeFrom constants (.type index) (.type name)
  | string {index : Index .utf8} {text : String} (htext : textAt? constants index = some text) :
      MadeFrom constants (.string index) (.string text)
  | nameAndType {first second : Index .utf8} {name descriptor : String}
      (hname : textAt? constants first = some name)
      (hdescriptor : textAt? constants second = some descriptor) :
      MadeFrom constants (.nameAndType first second) (.nameAndType name descriptor)
  | fieldRef {type : Index .type} {member : Index .nameAndType} {owner name descriptor : String}
      (howner : classAt? constants type = some owner)
      (hmember : memberAt? constants member = some (name, descriptor)) :
      MadeFrom constants (.fieldRef type member) (.fieldRef owner name descriptor)
  | methodRef {type : Index .type} {member : Index .nameAndType} {owner name descriptor : String}
      (howner : classAt? constants type = some owner)
      (hmember : memberAt? constants member = some (name, descriptor)) :
      MadeFrom constants (.methodRef type member) (.methodRef owner name descriptor)

theorem rebuild?_eq_some_iff {constant : Constant} {addition : Addition} :
    rebuild? constants constant = some addition ↔ MadeFrom constants constant addition := by
  constructor
  · intro h
    cases constant with
    | utf8 text =>
      cases h
      exact .utf8
    | integer value =>
      cases h
      exact .integer
    | type index =>
      obtain ⟨name, hname, rfl⟩ := Option.map_eq_some_iff.mp h
      exact .type hname
    | string index =>
      obtain ⟨text, htext, rfl⟩ := Option.map_eq_some_iff.mp h
      exact .string htext
    | nameAndType first second =>
      obtain ⟨name, hname, h⟩ := Option.bind_eq_some_iff.mp h
      obtain ⟨descriptor, hdescriptor, h⟩ := Option.bind_eq_some_iff.mp h
      cases h
      exact .nameAndType hname hdescriptor
    | fieldRef type member =>
      obtain ⟨⟨name, descriptor⟩, hmember, h⟩ := Option.bind_eq_some_iff.mp h
      obtain ⟨owner, howner, h⟩ := Option.bind_eq_some_iff.mp h
      cases h
      exact .fieldRef howner hmember
    | methodRef type member =>
      obtain ⟨⟨name, descriptor⟩, hmember, h⟩ := Option.bind_eq_some_iff.mp h
      obtain ⟨owner, howner, h⟩ := Option.bind_eq_some_iff.mp h
      cases h
      exact .methodRef howner hmember
  · intro h
    cases h with
    | utf8 => rfl
    | integer => rfl
    | type hname => simp [rebuild?, hname]
    | string htext => simp [rebuild?, htext]
    | nameAndType hname hdescriptor => simp [rebuild?, hname, hdescriptor]
    | fieldRef howner hmember => simp [rebuild?, howner, hmember]
    | methodRef howner hmember => simp [rebuild?, howner, hmember]

/-- Constants made from the same are the same. -/
theorem MadeFrom.inj (hdistinct : constants.Nodup) {a b : Constant} {addition : Addition}
    (ha : MadeFrom constants a addition) (hb : MadeFrom constants b addition) : a = b := by
  cases ha with
  | utf8 => cases hb; rfl
  | integer => cases hb; rfl
  | type hname =>
    cases hb with
    | type hname' => rw [textAt?_inj hdistinct hname hname']
  | string htext =>
    cases hb with
    | string htext' => rw [textAt?_inj hdistinct htext htext']
  | nameAndType hname hdescriptor =>
    cases hb with
    | nameAndType hname' hdescriptor' =>
      rw [textAt?_inj hdistinct hname hname', textAt?_inj hdistinct hdescriptor hdescriptor']
  | fieldRef howner hmember =>
    cases hb with
    | fieldRef howner' hmember' =>
      rw [classAt?_inj hdistinct howner howner', memberAt?_inj hdistinct hmember hmember']
  | methodRef howner hmember =>
    cases hb with
    | methodRef howner' hmember' =>
      rw [classAt?_inj hdistinct howner howner', memberAt?_inj hdistinct hmember hmember']

theorem constantAt?_mono {later : List Constant} (h : constants <+: later) {index : Index kind}
    {constant : Constant} (hconstant : constantAt? constants index = some constant) :
    constantAt? later index = some constant := by
  obtain ⟨hpos, hget⟩ := constantAt?_eq_some_iff.mp hconstant
  obtain ⟨rest, rfl⟩ := h
  have hlt := (List.getElem?_eq_some_iff.mp hget).1
  exact constantAt?_eq_some_iff.mpr ⟨hpos, by rw [List.getElem?_append_left hlt, hget]⟩

theorem MadeFrom.mono {later : List Constant} (h : constants <+: later) {constant : Constant}
    {addition : Addition} (hmade : MadeFrom constants constant addition) :
    MadeFrom later constant addition := by
  have htext : ∀ {index text}, textAt? constants index = some text →
      textAt? later index = some text := fun ht =>
    textAt?_eq_some_iff.mpr (constantAt?_mono h (textAt?_eq_some_iff.mp ht))
  have hclass : ∀ {index name}, classAt? constants index = some name →
      classAt? later index = some name := by
    intro index name hc
    obtain ⟨text, hc, hname⟩ := classAt?_eq_some_iff.mp hc
    exact classAt?_eq_some_iff.mpr ⟨text, constantAt?_mono h hc, htext hname⟩
  have hpair : ∀ {index name descriptor}, memberAt? constants index = some (name, descriptor) →
      memberAt? later index = some (name, descriptor) := by
    intro index name descriptor hm
    obtain ⟨first, second, hm, hname, hdescriptor⟩ := memberAt?_eq_some_iff.mp hm
    exact memberAt?_eq_some_iff.mpr
      ⟨first, second, constantAt?_mono h hm, htext hname, htext hdescriptor⟩
  cases hmade with
  | utf8 => exact .utf8
  | integer => exact .integer
  | type hname => exact .type (htext hname)
  | string hstring => exact .string (htext hstring)
  | nameAndType hname hdescriptor => exact .nameAndType (htext hname) (htext hdescriptor)
  | fieldRef howner hmember => exact .fieldRef (hclass howner) (hpair hmember)
  | methodRef howner hmember => exact .methodRef (hclass howner) (hpair hmember)

/-! ### Room -/

/-- What the constants of a pool were made from. -/
def made (pool : Pool) : Finset Addition :=
  (pool.toList.filterMap (rebuild? pool.toList)).toFinset

/-- How many of the constants that are wanted are not there. -/
def lacking (pool : Pool) (wanted : Finset Addition) : Nat := (wanted \ pool.made).card

def Room (pool : Pool) (wanted : Finset Addition) : Prop :=
  pool.size + pool.lacking wanted ≤ capacity

instance (pool : Pool) (wanted : Finset Addition) : Decidable (pool.Room wanted) :=
  inferInstanceAs (Decidable (_ ≤ _))

variable {pool later : Pool} {wanted : Finset Addition} {constant : Constant} {addition : Addition}

theorem distinct_toList (pool : Pool) : pool.toList.Nodup := by
  rw [← List.map_id' pool.toList]
  exact Registry.nodup_keys pool

theorem mem_made_iff :
    addition ∈ pool.made ↔ ∃ constant ∈ pool.toList, MadeFrom pool.toList constant addition := by
  simp only [made, List.mem_toFinset, List.mem_filterMap, rebuild?_eq_some_iff]

theorem made_mono (h : pool.GrowsTo later) : pool.made ⊆ later.made := by
  intro addition hmem
  obtain ⟨constant, hconstant, hmade⟩ := mem_made_iff.mp hmem
  exact mem_made_iff.mpr ⟨constant, h.subset hconstant, hmade.mono h⟩

theorem notMem_made (hmade : MadeFrom pool.toList constant addition)
    (hnew : constant ∉ pool.toList) : addition ∉ pool.made := by
  intro hmem
  obtain ⟨other, hother, hmade'⟩ := mem_made_iff.mp hmem
  exact hnew (hmade.inj pool.distinct_toList hmade' ▸ hother)

theorem Room.bounded (h : pool.Room wanted) : pool.Bounded := Nat.le_of_add_right_le h

/-- A wanted constant is not refused, and takes no more than the room that was left for it. -/
theorem Room.gives_add (h : pool.Room wanted) (hmade : MadeFrom pool.toList constant addition)
    (hwanted : addition ∈ wanted) :
    ∃ index later, Gives (add constant) pool index later ∧ later.Room wanted := by
  obtain ⟨position, -, hadd⟩ | ⟨hnew, hroom, hresult, hlist⟩ | ⟨hnew, hfull, -⟩ :=
    add_cases constant pool
  · exact ⟨indexAt position, pool, ⟨by rw [hadd], by rw [hadd]⟩, h⟩
  · refine ⟨indexAt pool.size, _, ⟨hresult, rfl⟩, ?_⟩
    have hgrows : pool.GrowsTo (add constant pool).state := growing_add constant pool
    have hsize : (add constant pool).state.size = pool.size + 1 := by
      rw [← Registry.length_toList, hlist, List.length_append, Registry.length_toList]
      rfl
    have hadded : addition ∈ (add constant pool).state.made :=
      mem_made_iff.mpr ⟨constant, by simp [hlist], hmade.mono hgrows⟩
    have hfewer : (add constant pool).state.lacking wanted < pool.lacking wanted := by
      apply Finset.card_lt_card
      apply (Finset.ssubset_iff_of_subset
        (Finset.sdiff_subset_sdiff (Finset.Subset.refl _) (made_mono hgrows))).mpr
      exact ⟨addition, Finset.mem_sdiff.mpr ⟨hwanted, notMem_made hmade hnew⟩,
        fun hmem => (Finset.mem_sdiff.mp hmem).2 hadded⟩
    unfold Room at h ⊢
    omega
  · have hlacks : 0 < pool.lacking wanted :=
      Finset.card_pos.mpr ⟨addition, Finset.mem_sdiff.mpr ⟨hwanted, notMem_made hmade hnew⟩⟩
    unfold Room at h
    omega

theorem Room.gives_addClass (h : pool.Room wanted) {name : String} (htext : .utf8 name ∈ wanted)
    (hclass : .type name ∈ wanted) :
    ∃ index later, Gives (addClass name) pool index later ∧ later.Room wanted := by
  obtain ⟨text, mid, hgives, hroom⟩ := h.gives_add .utf8 htext
  have hname : textAt? mid.toList text = some name :=
    denotes_addUtf8 name hgives hroom.bounded.within
  obtain ⟨index, later, hgives', hroom'⟩ := hroom.gives_add (.type hname) hclass
  exact ⟨index, later, gives_bind.mpr ⟨text, mid, hgives, hgives'⟩, hroom'⟩

end Pool

end Classfile
