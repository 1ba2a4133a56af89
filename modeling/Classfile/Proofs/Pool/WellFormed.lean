import Classfile.Proofs.Pool.Denotation
import Classfile.Proofs.Run

/-!
# Well-formed pools

Whatever is asked of a pool that was empty at first, and whether there was room for all of it, the
constants in the pool refer to constants before them, of the kind they need. So every index leads
back to the entry it was made for, and the search for a descriptor comes to an end.
-/

namespace Classfile

/-- The indices that a constant holds. The kind of each is that of the constant it leads to. -/
def Constant.parts : Constant → List ((kind : IndexKind) × Index kind)
  | utf8 _ | integer _ => []
  | type text | string text => [⟨.utf8, text⟩]
  | nameAndType name descriptor => [⟨.utf8, name⟩, ⟨.utf8, descriptor⟩]
  | fieldRef owner member | methodRef owner member => [⟨.type, owner⟩, ⟨.nameAndType, member⟩]

namespace Pool

open Classfile.Action

variable {kind : IndexKind} {pool : Pool}

/-- The index leads to a constant of its kind. -/
def Holds (pool : Pool) (index : Index kind) : Prop :=
  ∃ target, pool.constant? index = some target ∧ target.kind = kind

structure WellFormed (pool : Pool) : Prop where
  bounded : pool.size ≤ 65534
  distinct : pool.toList.Nodup
  /-- The index of the constant at a position is one more than the position. -/
  refers : ∀ position constant, pool.toList[position]? = some constant → ∀ part ∈ constant.parts,
    0 < part.2.val.toNat ∧ part.2.val.toNat < position + 1 ∧ pool.Holds part.2

/-! ### Indices and positions -/

theorem constantAt?_toList (pool : Pool) (index : Index kind) :
    constantAt? pool.toList index = pool.constant? index := by
  unfold Classfile.constantAt? constant?
  cases index.val.toNat with
  | zero => rfl
  | succ position => exact Array.getElem?_toList

theorem constant?_eq_some_iff {index : Index kind} {constant : Constant} :
    pool.constant? index = some constant ↔
      1 ≤ index.val.toNat ∧ pool.toList[index.val.toNat - 1]? = some constant := by
  rw [← constantAt?_toList, Classfile.constantAt?]
  cases index.val.toNat with
  | zero => simp
  | succ position => simp

theorem isSome_constant?_iff {index : Index kind} :
    (pool.constant? index).isSome ↔ 1 ≤ index.val.toNat ∧ index.val.toNat ≤ pool.size := by
  have hlength := Registry.length_toList pool
  constructor
  · intro h
    obtain ⟨constant, hconstant⟩ := Option.isSome_iff_exists.mp h
    obtain ⟨hpos, hget⟩ := constant?_eq_some_iff.mp hconstant
    have hlt := (List.getElem?_eq_some_iff.mp hget).1
    omega
  · rintro ⟨hpos, hle⟩
    have hlt : index.val.toNat - 1 < pool.toList.length := by omega
    exact Option.isSome_of_eq_some
      (constant?_eq_some_iff.mpr ⟨hpos, List.getElem?_eq_getElem hlt⟩)

theorem Holds.mono {later : Pool} (hgrows : pool.GrowsTo later) {index : Index kind}
    (h : pool.Holds index) : later.Holds index := by
  obtain ⟨target, htarget, hkind⟩ := h
  exact ⟨target, hgrows.constant? htarget, hkind⟩

theorem Holds.index_bounds {index : Index kind} (h : pool.Holds index) :
    1 ≤ index.val.toNat ∧ index.val.toNat ≤ pool.size := by
  obtain ⟨target, htarget, -⟩ := h
  exact isSome_constant?_iff.mp (Option.isSome_of_eq_some htarget)

/-! ### Adding to a pool -/

theorem wellFormed_empty : WellFormed .empty where
  bounded := Nat.zero_le _
  distinct := List.nodup_nil
  refers position constant h := by simp [Registry.toList, Registry.empty] at h

/-- What refers to the pool may be added at its end. -/
theorem WellFormed.append {later : Pool} (h : pool.WellFormed) {constant : Constant}
    (hroom : pool.size < capacity) (hlater : later.toList = pool.toList ++ [constant])
    (hparts : ∀ part ∈ constant.parts, pool.Holds part.2) : later.WellFormed := by
  have hgrows : pool.GrowsTo later := ⟨[constant], hlater.symm⟩
  have hsize : later.size = pool.size + 1 := by
    rw [← Registry.length_toList, hlater, List.length_append, List.length_singleton,
      Registry.length_toList]
  refine ⟨?_, ?_, fun position found hfound part hpart => ?_⟩
  · rw [hsize]
    exact hroom
  · rw [← List.map_id' later.toList]
    exact Registry.nodup_keys later
  · rw [hlater, List.getElem?_append] at hfound
    split at hfound
    · obtain ⟨hpos, hlt, hholds⟩ := h.refers position found hfound part hpart
      exact ⟨hpos, hlt, hholds.mono hgrows⟩
    · next hposition =>
      rw [List.getElem?_singleton] at hfound
      split at hfound
      · cases hfound
        have hholds := hparts part hpart
        have hbounds := hholds.index_bounds
        have hlength := Registry.length_toList pool
        exact ⟨hbounds.1, by omega, hholds.mono hgrows⟩
      · cases hfound

theorem WellFormed.within (h : pool.WellFormed) : pool.Within pool.toList := by
  refine ⟨List.prefix_rfl, ?_⟩
  have hbounded := h.bounded
  have hlength := Registry.length_toList pool
  omega

/-- Given indices that lead to constants of their kind, the action keeps the pool well-formed, and
so does the index it returns lead to a constant of its kind. -/
def Interns (given : List ((kind : IndexKind) × Index kind)) (x : Action Pool (Index kind)) :
    Prop :=
  ∀ pool : Pool, pool.WellFormed → (∀ part ∈ given, pool.Holds part.2) →
    (x pool).state.WellFormed ∧ ∀ index, (x pool).result = .ok index → (x pool).state.Holds index

theorem interns_add (constant : Constant) : Interns constant.parts (add constant) := by
  intro pool hpool hparts
  have hstate : (add constant pool).state.WellFormed := by
    obtain ⟨_, -, hadd⟩ | ⟨-, hroom, -, hlist⟩ | ⟨-, -, hadd⟩ := add_cases constant pool
    · rwa [hadd]
    · exact hpool.append hroom hlist hparts
    · rwa [hadd]
  refine ⟨hstate, fun index hindex => ⟨constant, ?_, rfl⟩⟩
  rw [← constantAt?_toList]
  exact denotes_add constant (gives_of_result hindex) hstate.within

theorem Interns.weaken {x : Action Pool (Index kind)} (h : Interns [] x)
    (given : List ((kind : IndexKind) × Index kind)) : Interns given x :=
  fun pool hpool _ => h pool hpool (by simp)

/-- The index that the first step returns is one more that the second may use. -/
theorem Interns.bind {next : IndexKind} {given : List ((kind : IndexKind) × Index kind)}
    {x : Action Pool (Index kind)} {f : Index kind → Action Pool (Index next)}
    (hx : Interns given x) (hgrowing : Growing x)
    (hf : ∀ index, Interns (given ++ [⟨kind, index⟩]) (f index)) : Interns given (x >>= f) := by
  intro pool hpool hgiven
  obtain ⟨hstate, hindex⟩ := hx pool hpool hgiven
  obtain ⟨index, h⟩ | ⟨e, h⟩ := gives_or_fails x pool
  · obtain ⟨hresult, hnext⟩ := bind_of_gives h f
    rw [hresult, hnext]
    refine hf index _ hstate fun part hpart => ?_
    rw [List.mem_append, List.mem_singleton] at hpart
    obtain hpart | rfl := hpart
    · exact (hgiven part hpart).mono (hgrowing pool)
    · exact hindex index h.1
  · have hfails : Fails (x >>= f) pool e (x pool).state := fails_bind.mpr (.inl h)
    rw [hfails.1, hfails.2]
    exact ⟨hstate, by simp⟩

theorem interns_addUtf8 (text : String) : Interns [] (addUtf8 text) := interns_add (.utf8 text)

theorem interns_addClass (name : String) : Interns [] (addClass name) :=
  (interns_addUtf8 name).bind (repeats_addUtf8 name).moves fun name => interns_add (.type name)

theorem interns_addString (text : String) : Interns [] (addString text) :=
  (interns_addUtf8 text).bind (repeats_addUtf8 text).moves fun text => interns_add (.string text)

theorem interns_addNameAndType (name descriptor : String) :
    Interns [] (addNameAndType name descriptor) :=
  (interns_addUtf8 name).bind (repeats_addUtf8 name).moves fun name =>
    ((interns_addUtf8 descriptor).weaken _).bind (repeats_addUtf8 descriptor).moves
      fun descriptor => interns_add (.nameAndType name descriptor)

theorem interns_addFieldRef (owner name descriptor : String) :
    Interns [] (addFieldRef owner name descriptor) :=
  (interns_addClass owner).bind (repeats_addClass owner).moves fun owner =>
    ((interns_addNameAndType name descriptor).weaken _).bind (repeats_addNameAndType _ _).moves
      fun member => interns_add (.fieldRef owner member)

theorem interns_addMethodRef (owner name descriptor : String) :
    Interns [] (addMethodRef owner name descriptor) :=
  (interns_addClass owner).bind (repeats_addClass owner).moves fun owner =>
    ((interns_addNameAndType name descriptor).weaken _).bind (repeats_addNameAndType _ _).moves
      fun member => interns_add (.methodRef owner member)

theorem Interns.preserves {x : Action Pool (Index kind)} (h : Interns [] x) :
    Moves (Preserves WellFormed) x :=
  fun pool hpool => (h pool hpool (by simp)).1

/-- A pool stays well-formed, whatever is asked of it and whatever comes of it. -/
theorem preserves_run (addition : Addition) : Moves (Preserves WellFormed) addition.run := by
  cases addition with
  | utf8 text => exact moves_bind (interns_addUtf8 text).preserves fun _ => moves_pure _
  | integer value => exact (interns_add (.integer value)).preserves
  | type name => exact moves_bind (interns_addClass name).preserves fun _ => moves_pure _
  | string text => exact moves_bind (interns_addString text).preserves fun _ => moves_pure _
  | nameAndType name descriptor =>
    exact moves_bind (interns_addNameAndType name descriptor).preserves fun _ => moves_pure _
  | fieldRef owner name descriptor =>
    exact moves_bind (interns_addFieldRef owner name descriptor).preserves fun _ => moves_pure _
  | methodRef owner name descriptor =>
    exact moves_bind (interns_addMethodRef owner name descriptor).preserves fun _ => moves_pure _
  | attributeOf body =>
    have hbody : Moves (Preserves WellFormed) body.toAttribute :=
      moves_bind (interns_addUtf8 _).preserves fun _ =>
        moves_bind (moves_ofExcept _) fun _ => moves_pure _
    exact moves_bind hbody fun _ => moves_pure _

theorem wellFormed_run (additions : List Addition) {start : Pool} (h : start.WellFormed) :
    (Run.final Addition.run additions start).WellFormed :=
  Run.final_of_kept Addition.run preserves_run h additions

/-! ### Numbers of entries -/

theorem toNat_indexAt {position : Nat} (h : position < 65535) :
    (indexAt position : Index kind).val.toNat = position + 1 :=
  UInt16.toNat_ofNat_of_lt' (Nat.succ_lt_succ h)

theorem WellFormed.exists_count (h : pool.WellFormed) :
    ∃ word, pool.count = .ok word ∧ word.toNat = pool.size + 1 := by
  have hfits : pool.size + 1 < 0x10000 := Nat.succ_lt_succ (Nat.lt_succ_of_le h.bounded)
  exact ⟨_, fitValue_eq_ok_iff.mpr ⟨hfits, rfl⟩, UInt16.toNat_ofNat_of_lt' hfits⟩

/-- The index of a constant is one more than its position, and counts it without a wrap. -/
theorem WellFormed.exists_position (h : pool.WellFormed) {constant : Constant}
    {index : Index constant.kind} (hindex : (add constant pool).result = .ok index) :
    ∃ position, (add constant pool).state.toList[position]? = some constant ∧
      index.val.toNat = position + 1 := by
  have hlength := Registry.length_toList pool
  have hbounded := h.bounded
  obtain ⟨position, hposition, hadd⟩ | ⟨-, hroom, hresult, hlist⟩ | ⟨-, -, hadd⟩ :=
    add_cases constant pool
  · rw [hadd] at hindex ⊢
    cases hindex
    have hlt := (List.getElem?_eq_some_iff.mp hposition).1
    exact ⟨position, hposition, toNat_indexAt (by omega)⟩
  · rw [hresult] at hindex
    cases hindex
    refine ⟨pool.size, ?_, toNat_indexAt (by omega)⟩
    rw [hlist, ← hlength, List.getElem?_concat_length]
  · rw [hadd] at hindex
    cases hindex

theorem getElem?_numbered (pool : Pool) (position : Nat) :
    pool.numbered.toList[position]? = pool.toList[position]?.map (indexAt position, ·) := by
  simp [numbered, Registry.toList]

theorem WellFormed.map_numbered (h : pool.WellFormed) :
    pool.numbered.toList.map (fun entry => entry.1.val.toNat) = List.range' 1 pool.size := by
  have hlength := Registry.length_toList pool
  have hbounded := h.bounded
  apply List.ext_getElem?
  intro position
  rw [List.getElem?_map, getElem?_numbered]
  by_cases hlt : position < pool.toList.length
  · have hindex : (indexAt position : Index .any).val.toNat = position + 1 :=
      toNat_indexAt (by omega)
    rw [List.getElem?_eq_getElem hlt, List.getElem?_range' (by omega)]
    simp [hindex, Nat.add_comm]
  · rw [List.getElem?_eq_none (by omega), List.getElem?_eq_none (by simp; omega)]
    rfl

theorem WellFormed.mem_numbered_iff (h : pool.WellFormed) {index : Index .any}
    {constant : Constant} :
    (index, constant) ∈ pool.numbered.toList ↔ pool.constant? index = some constant := by
  have hlength := Registry.length_toList pool
  have hbounded := h.bounded
  rw [List.mem_iff_getElem?, constant?_eq_some_iff]
  constructor
  · rintro ⟨position, hposition⟩
    rw [getElem?_numbered] at hposition
    obtain ⟨found, hfound, heq⟩ := Option.map_eq_some_iff.mp hposition
    cases heq
    have hlt := (List.getElem?_eq_some_iff.mp hfound).1
    rw [toNat_indexAt (by omega)]
    exact ⟨Nat.le_add_left .., hfound⟩
  · rintro ⟨hpos, hfound⟩
    refine ⟨index.val.toNat - 1, ?_⟩
    rw [getElem?_numbered, hfound, Option.map_some, indexAt, Nat.sub_add_cancel hpos,
      UInt16.ofNat_toNat]

/-! ### Descriptors -/

/-- The search for the descriptor of a constant. For a member it goes on at the name and type. -/
inductive Describes (pool : Pool) : Index .any → Option String → Prop where
  | missing {index : Index .any} (h : pool.constant? index = none) : Describes pool index none
  | utf8 {index : Index .any} {text : String} (h : pool.constant? index = some (.utf8 text)) :
      Describes pool index none
  | integer {index : Index .any} {value : Int32}
      (h : pool.constant? index = some (.integer value)) : Describes pool index (some "I")
  | string {index : Index .any} {text : Index .utf8}
      (h : pool.constant? index = some (.string text)) :
      Describes pool index (some "Ljava/lang/String;")
  | type {index : Index .any} {name : Index .utf8} (h : pool.constant? index = some (.type name)) :
      Describes pool index ((pool.text? name).map descriptorOfClass)
  | nameAndType {index : Index .any} {name descriptor : Index .utf8}
      (h : pool.constant? index = some (.nameAndType name descriptor)) :
      Describes pool index (pool.text? descriptor)
  | fieldRef {index : Index .any} {owner : Index .type} {member : Index .nameAndType}
      {result : Option String} (h : pool.constant? index = some (.fieldRef owner member))
      (next : Describes pool member.untyped result) : Describes pool index result
  | methodRef {index : Index .any} {owner : Index .type} {member : Index .nameAndType}
      {result : Option String} (h : pool.constant? index = some (.methodRef owner member))
      (next : Describes pool member.untyped result) : Describes pool index result

theorem Holds.exists_text {index : Index .utf8} (h : pool.Holds index) :
    ∃ text, pool.text? index = some text := by
  obtain ⟨target, htarget, hkind⟩ := h
  cases target with
  | utf8 text => exact ⟨text, by rw [text?, htarget]⟩
  | _ => cases hkind

theorem Holds.exists_nameAndType {index : Index .nameAndType} (h : pool.Holds index) :
    ∃ name descriptor, pool.constant? index = some (.nameAndType name descriptor) := by
  obtain ⟨target, htarget, hkind⟩ := h
  cases target with
  | nameAndType name descriptor => exact ⟨name, descriptor, htarget⟩
  | _ => cases hkind

namespace WellFormed

variable (h : pool.WellFormed) {index : Index kind} {constant : Constant}
include h

/-- A constant refers to constants with smaller indices. -/
theorem part_of_constant? (hconstant : pool.constant? index = some constant)
    {part : (kind : IndexKind) × Index kind} (hpart : part ∈ constant.parts) :
    part.2.val.toNat < index.val.toNat ∧ pool.Holds part.2 := by
  obtain ⟨hpos, hposition⟩ := constant?_eq_some_iff.mp hconstant
  obtain ⟨-, hlt, hholds⟩ := h.refers _ constant hposition part hpart
  exact ⟨by omega, hholds⟩

/-- A member is described by its name and type, which is there. -/
theorem descriptor?_member {owner : Index .type} {member : Index .nameAndType}
    (hconstant : pool.constant? index = some constant)
    (hmember : constant = .fieldRef owner member ∨ constant = .methodRef owner member) :
    member.val.toNat < index.val.toNat ∧
      pool.descriptor? index = pool.descriptor? member.untyped ∧
      (pool.descriptor? index).isSome := by
  have hparts : ⟨.nameAndType, member⟩ ∈ constant.parts := by
    obtain rfl | rfl := hmember <;> simp [Constant.parts]
  obtain ⟨hlt, hholds⟩ := h.part_of_constant? hconstant hparts
  obtain ⟨name, descriptor, hpair⟩ := hholds.exists_nameAndType
  have hparts : ⟨.utf8, descriptor⟩ ∈ (Constant.nameAndType name descriptor).parts := by
    simp [Constant.parts]
  obtain ⟨text, htext⟩ := (h.part_of_constant? hpair hparts).2.exists_text
  have hindex : pool.descriptor? index = some text := by
    obtain rfl | rfl := hmember <;> simp [descriptor?, hconstant, memberDescriptor?, hpair, htext]
  have huntyped : pool.descriptor? member.untyped = some text := by
    have hpair : pool.constant? member.untyped = some (.nameAndType name descriptor) := hpair
    simp [descriptor?, hpair, htext]
  exact ⟨hlt, hindex.trans huntyped.symm, Option.isSome_of_eq_some hindex⟩

/-- The search ends, since it goes on at smaller indices only. -/
theorem describes_descriptor? (index : Index .any) :
    pool.Describes index (pool.descriptor? index) := by
  induction hindex : index.val.toNat using Nat.strongRecOn generalizing index with
  | ind n ih =>
    cases hconstant : pool.constant? index with
    | none =>
      rw [descriptor?, hconstant]
      exact .missing hconstant
    | some constant =>
      cases constant with
      | fieldRef owner member =>
        obtain ⟨hlt, heq, -⟩ := h.descriptor?_member hconstant (.inl rfl)
        rw [heq]
        exact .fieldRef hconstant (ih _ (hindex ▸ hlt) member.untyped rfl)
      | methodRef owner member =>
        obtain ⟨hlt, heq, -⟩ := h.descriptor?_member hconstant (.inr rfl)
        rw [heq]
        exact .methodRef hconstant (ih _ (hindex ▸ hlt) member.untyped rfl)
      | utf8 text =>
        rw [descriptor?, hconstant]
        exact .utf8 hconstant
      | integer value =>
        rw [descriptor?, hconstant]
        exact .integer hconstant
      | string text =>
        rw [descriptor?, hconstant]
        exact .string hconstant
      | type name =>
        rw [descriptor?, hconstant]
        exact .type hconstant
      | nameAndType name descriptor =>
        rw [descriptor?, hconstant]
        exact .nameAndType hconstant

theorem describes_iff {index : Index .any} {result : Option String} :
    pool.Describes index result ↔ result = pool.descriptor? index := by
  refine ⟨fun hdescribes => ?_, fun heq => heq ▸ h.describes_descriptor? index⟩
  induction hdescribes with
  | fieldRef hconstant next ih => rw [ih, (h.descriptor?_member hconstant (.inl rfl)).2.1]
  | methodRef hconstant next ih => rw [ih, (h.descriptor?_member hconstant (.inr rfl)).2.1]
  | _ hconstant => rw [descriptor?, hconstant]

theorem descriptor?_eq_none_iff :
    pool.descriptor? index = none ↔
      pool.constant? index = none ∨ ∃ text, pool.constant? index = some (.utf8 text) := by
  cases hconstant : pool.constant? index with
  | none => simp [descriptor?, hconstant]
  | some constant =>
    cases constant with
    | utf8 text => simp [descriptor?, hconstant]
    | integer value => simp [descriptor?, hconstant]
    | string text => simp [descriptor?, hconstant]
    | type name =>
      have hparts : ⟨.utf8, name⟩ ∈ (Constant.type name).parts := by simp [Constant.parts]
      obtain ⟨text, htext⟩ := (h.part_of_constant? hconstant hparts).2.exists_text
      simp [descriptor?, hconstant, htext]
    | nameAndType name descriptor =>
      have hparts : ⟨.utf8, descriptor⟩ ∈ (Constant.nameAndType name descriptor).parts := by
        simp [Constant.parts]
      obtain ⟨text, htext⟩ := (h.part_of_constant? hconstant hparts).2.exists_text
      simp [descriptor?, hconstant, htext]
    | fieldRef owner member =>
      have hsome := (h.descriptor?_member hconstant (.inl rfl)).2.2
      simp [Option.isSome_iff_ne_none.mp hsome]
    | methodRef owner member =>
      have hsome := (h.descriptor?_member hconstant (.inr rfl)).2.2
      simp [Option.isSome_iff_ne_none.mp hsome]

end WellFormed

/-- **Well-formed pools.** Whatever is asked of an empty pool, in any order and whether it succeeds
or not, the pool has at most 65534 constants, all distinct, which refer to earlier constants of the
kinds they need. An index between 1 and the size leads to the constant it counts, and no other index
to any; the constants are numbered from 1 without a gap, and neither their count nor an index that
is handed out wraps around. The search for a descriptor ends, with none exactly for texts and for
indices that lead nowhere. -/
theorem wellFormed_final (additions : List Addition) :
    let pool := Run.final Addition.run additions .empty
    pool.WellFormed ∧
    (∀ (index : Index .any) constant, pool.constant? index = some constant ↔
      1 ≤ index.val.toNat ∧ pool.toList[index.val.toNat - 1]? = some constant) ∧
    (∀ index : Index .any, (pool.constant? index).isSome ↔
      1 ≤ index.val.toNat ∧ index.val.toNat ≤ pool.size) ∧
    pool.numbered.toList.map (fun entry => entry.1.val.toNat) = List.range' 1 pool.size ∧
    (∀ index constant, (index, constant) ∈ pool.numbered.toList ↔
      pool.constant? index = some constant) ∧
    (∃ word, pool.count = .ok word ∧ word.toNat = pool.size + 1) ∧
    (∀ constant index, (add constant pool).result = .ok index →
      ∃ position, (add constant pool).state.toList[position]? = some constant ∧
        index.val.toNat = position + 1) ∧
    (∀ index result, pool.Describes index result ↔ result = pool.descriptor? index) ∧
    ∀ index : Index .any, pool.descriptor? index = none ↔
      pool.constant? index = none ∨ ∃ text, pool.constant? index = some (.utf8 text) := by
  intro pool
  have h : pool.WellFormed := wellFormed_run additions wellFormed_empty
  exact ⟨h, fun _ _ => constant?_eq_some_iff, fun _ => isSome_constant?_iff, h.map_numbered,
    fun _ _ => h.mem_numbered_iff, h.exists_count, fun _ _ => h.exists_position,
    fun _ _ => h.describes_iff, fun _ => h.descriptor?_eq_none_iff⟩

end Pool

end Classfile
