import Classfile.Proofs.Pool.Room

/-!
# Exact capacity

A request needs a constant and those it is made of, some of which may be the same. The pool fills up
in the order in which they are asked for, so the request fails exactly if those that the pool lacks
are more than the places left, and then the pool is full. The sum of the size of the pool and of the
constants it lacks is the same at every moment of the request.
-/

namespace Classfile.Pool

open Classfile.Action

variable {α β : Type} {kind : IndexKind} {pool mid later : Pool} {wanted : Finset Addition}
  {constant : Constant} {addition : Addition}

/-! ### What a request needs -/

/-- The constants that a request asks for, each told by what it is made from. -/
def Addition.needs : Addition → Finset Addition
  | utf8 text => {.utf8 text}
  | integer value => {.integer value}
  | type name => {.utf8 name, .type name}
  | string text => {.utf8 text, .string text}
  | nameAndType name descriptor => {.utf8 name, .utf8 descriptor, .nameAndType name descriptor}
  | fieldRef owner name descriptor =>
    {.utf8 owner, .type owner, .utf8 name, .utf8 descriptor, .nameAndType name descriptor,
      .fieldRef owner name descriptor}
  | methodRef owner name descriptor =>
    {.utf8 owner, .type owner, .utf8 name, .utf8 descriptor, .nameAndType name descriptor,
      .methodRef owner name descriptor}
  | attributeOf body => {.utf8 body.kind.name}

theorem Addition.needs_fieldRef (owner name descriptor : String) :
    (fieldRef owner name descriptor).needs =
      (type owner).needs ∪ ((nameAndType name descriptor).needs ∪
        {.fieldRef owner name descriptor}) := by
  simp only [needs, Finset.insert_union, Finset.singleton_union]

theorem Addition.needs_methodRef (owner name descriptor : String) :
    (methodRef owner name descriptor).needs =
      (type owner).needs ∪ ((nameAndType name descriptor).needs ∪
        {.methodRef owner name descriptor}) := by
  simp only [needs, Finset.insert_union, Finset.singleton_union]

/-- Every constant of the pool has an index and was made from something. -/
structure Resolved (pool : Pool) : Prop where
  bounded : pool.Bounded
  made : ∀ constant ∈ pool.toList, ∃ addition, MadeFrom pool.toList constant addition

theorem resolved_empty : Resolved .empty := by
  refine ⟨Nat.zero_le _, fun constant h => ?_⟩
  simp [Registry.toList, Registry.empty] at h

theorem MadeFrom.unique {constants : List Constant} {a b : Addition}
    (ha : MadeFrom constants constant a) (hb : MadeFrom constants constant b) : a = b := by
  have hsome := (rebuild?_eq_some_iff.mpr ha).symm.trans (rebuild?_eq_some_iff.mpr hb)
  exact Option.some.inj hsome

/-! ### One more constant -/

section Append

variable (hpool : pool.Resolved) (hmade : MadeFrom pool.toList constant addition)
  (hlater : later.toList = pool.toList ++ [constant])
include hpool hmade hlater

theorem Resolved.made_append : later.made = insert addition pool.made := by
  have hgrows : pool.GrowsTo later := ⟨[constant], hlater.symm⟩
  ext other
  rw [Finset.mem_insert]
  constructor
  · intro h
    obtain ⟨found, hfound, hfrom⟩ := mem_made_iff.mp h
    rw [hlater, List.mem_append, List.mem_singleton] at hfound
    obtain hfound | rfl := hfound
    · obtain ⟨before, hbefore⟩ := hpool.made found hfound
      obtain rfl := (hbefore.mono hgrows).unique hfrom
      exact .inr (mem_made_iff.mpr ⟨found, hfound, hbefore⟩)
    · exact .inl (hfrom.unique (hmade.mono hgrows))
  · rintro (rfl | h)
    · exact mem_made_iff.mpr ⟨constant, by simp [hlater], hmade.mono hgrows⟩
    · exact made_mono hgrows h

theorem Resolved.append (hroom : pool.size < capacity) : later.Resolved := by
  have hgrows : pool.GrowsTo later := ⟨[constant], hlater.symm⟩
  constructor
  · rw [Bounded, ← Registry.length_toList, hlater, List.length_append]
    exact hroom
  · intro found hfound
    rw [hlater, List.mem_append, List.mem_singleton] at hfound
    obtain hfound | rfl := hfound
    · obtain ⟨before, hbefore⟩ := hpool.made found hfound
      exact ⟨before, hbefore.mono hgrows⟩
    · exact ⟨addition, hmade.mono hgrows⟩

/-- A wanted constant that is added is lacking no more. -/
theorem Resolved.lacking_append (hnew : constant ∉ pool.toList) (hwanted : addition ∈ wanted) :
    later.lacking wanted + 1 = pool.lacking wanted := by
  have hlacks : addition ∈ wanted \ pool.made :=
    Finset.mem_sdiff.mpr ⟨hwanted, notMem_made hmade hnew⟩
  rw [lacking, hpool.made_append hmade hlater, Finset.sdiff_insert,
    Finset.card_erase_add_one hlacks, lacking]

end Append

/-! ### Wanted constants in turn -/

/-- Wanted constants were added at the end and nothing else, each in a place kept for it. -/
structure Fills (wanted : Finset Addition) (pool later : Pool) : Prop where
  resolved : later.Resolved
  grows : pool.GrowsTo later
  made : later.made ⊆ pool.made ∪ wanted
  level : later.size + later.lacking wanted = pool.size + pool.lacking wanted

theorem Fills.refl (hpool : pool.Resolved) : Fills wanted pool pool :=
  ⟨hpool, .refl pool, Finset.subset_union_left, rfl⟩

theorem Fills.trans (hfirst : Fills wanted pool mid) (hsecond : Fills wanted mid later) :
    Fills wanted pool later where
  resolved := hsecond.resolved
  grows := hfirst.grows.trans hsecond.grows
  made := by
    calc later.made ⊆ mid.made ∪ wanted := hsecond.made
      _ ⊆ pool.made ∪ wanted ∪ wanted := Finset.union_subset_union_left hfirst.made
      _ = pool.made ∪ wanted := by rw [Finset.union_assoc, Finset.union_self]
  level := hsecond.level.trans hfirst.level

/-- The action asks for wanted constants in turn, and fails only for one that is lacking when the
pool is full. -/
structure Draws (wanted : Finset Addition) (x : Action Pool α) (pool : Pool) : Prop where
  fills : Fills wanted pool (x pool).state
  full : ∀ e, (x pool).result = .error e → (∃ constant, e = .poolFull constant) ∧
    (x pool).state.size = capacity ∧ 0 < (x pool).state.lacking wanted

theorem draws_add (hpool : pool.Resolved) (hmade : MadeFrom pool.toList constant addition)
    (hwanted : addition ∈ wanted) : Draws wanted (add constant) pool := by
  -- The constant is there already, there is a place for it, or the pool is full.
  obtain ⟨position, -, hadd⟩ | ⟨hnew, hroom, hresult, hlist⟩ | ⟨hnew, hfull, hadd⟩ :=
    add_cases constant pool
  · constructor
    · rw [hadd]
      exact .refl hpool
    · intro e he
      rw [hadd] at he
      cases he
  · have hlacking := hpool.lacking_append hmade hlist hnew hwanted
    have hsize : (add constant pool).state.size = pool.size + 1 := by
      rw [← Registry.length_toList, hlist, List.length_append, Registry.length_toList]
      rfl
    constructor
    · refine ⟨hpool.append hmade hlist hroom, growing_add constant pool, ?_, by omega⟩
      rw [hpool.made_append hmade hlist, Finset.insert_subset_iff]
      exact ⟨Finset.mem_union_right _ hwanted, Finset.subset_union_left⟩
    · intro e he
      rw [hresult] at he
      cases he
  · have hlacks : addition ∈ wanted \ pool.made :=
      Finset.mem_sdiff.mpr ⟨hwanted, notMem_made hmade hnew⟩
    constructor
    · rw [hadd]
      exact .refl hpool
    · intro e he
      rw [hadd] at he ⊢
      cases he
      exact ⟨⟨constant, rfl⟩, Nat.le_antisymm hpool.bounded hfull, Finset.card_pos.mpr ⟨_, hlacks⟩⟩

theorem Draws.bind {x : Action Pool α} {f : α → Action Pool β} (hx : Draws wanted x pool)
    (hf : ∀ a mid, Gives x pool a mid → mid.Resolved → Draws wanted (f a) mid) :
    Draws wanted (x >>= f) pool := by
  obtain ⟨a, h⟩ | ⟨e, h⟩ := gives_or_fails x pool
  · have hnext := hf a _ h hx.fills.resolved
    obtain ⟨hresult, hstate⟩ := bind_of_gives h f
    constructor
    · rw [hstate]
      exact hx.fills.trans hnext.fills
    · rw [hresult, hstate]
      exact hnext.full
  · have hfails : Fails (x >>= f) pool e (x pool).state := fails_bind.mpr (.inl h)
    constructor
    · rw [hfails.2]
      exact hx.fills
    · intro other hother
      rw [hfails.1] at hother
      cases hother
      rw [hfails.2]
      exact hx.full e h.1

theorem draws_pure (hpool : pool.Resolved) (a : α) : Draws wanted (pure a) pool := by
  refine ⟨.refl hpool, fun e he => ?_⟩
  cases he

/-! ### Requests -/

section Requests

variable (hpool : pool.Resolved)
include hpool

theorem draws_addUtf8 {text : String} (hwanted : .utf8 text ∈ wanted) :
    Draws wanted (addUtf8 text) pool :=
  draws_add hpool .utf8 hwanted

theorem draws_addClass {name : String} (hwanted : (Addition.type name).needs ⊆ wanted) :
    Draws wanted (addClass name) pool := by
  have htext : .utf8 name ∈ wanted := hwanted (by simp [Addition.needs])
  refine (draws_addUtf8 hpool htext).bind fun text mid htext hmid => ?_
  have hname := denotes_addUtf8 name htext hmid.bounded.within
  exact draws_add hmid (.type hname) (hwanted (by simp [Addition.needs]))

theorem draws_addString {text : String} (hwanted : (Addition.string text).needs ⊆ wanted) :
    Draws wanted (addString text) pool := by
  have hentry : .utf8 text ∈ wanted := hwanted (by simp [Addition.needs])
  refine (draws_addUtf8 hpool hentry).bind fun entry mid hentry hmid => ?_
  have htext := denotes_addUtf8 text hentry hmid.bounded.within
  exact draws_add hmid (.string htext) (hwanted (by simp [Addition.needs]))

theorem draws_addNameAndType {name descriptor : String}
    (hwanted : (Addition.nameAndType name descriptor).needs ⊆ wanted) :
    Draws wanted (addNameAndType name descriptor) pool := by
  have hfirst : .utf8 name ∈ wanted := hwanted (by simp [Addition.needs])
  have hsecond : .utf8 descriptor ∈ wanted := hwanted (by simp [Addition.needs])
  refine (draws_addUtf8 hpool hfirst).bind fun first mid hfirst hmid => ?_
  refine (draws_addUtf8 hmid hsecond).bind fun second last hsecond hlast => ?_
  have hgrows : mid.GrowsTo last := (repeats_addUtf8 descriptor).moves.of_gives hsecond
  have hname := denotes_addUtf8 name hfirst (hgrows.within hlast.bounded.within)
  have hdescriptor := denotes_addUtf8 descriptor hsecond hlast.bounded.within
  exact draws_add hlast (.nameAndType hname hdescriptor) (hwanted (by simp [Addition.needs]))

/-- What is made of a class and of a name and type asks for these first. -/
theorem draws_member {owner name descriptor : String}
    {f : Index .type → Index .nameAndType → Action Pool α}
    (hclass : (Addition.type owner).needs ⊆ wanted)
    (hpair : (Addition.nameAndType name descriptor).needs ⊆ wanted)
    (hf : ∀ type member last, last.Resolved → classAt? last.toList type = some owner →
      memberAt? last.toList member = some (name, descriptor) → Draws wanted (f type member) last) :
    Draws wanted (do
      let type ← addClass owner
      let member ← addNameAndType name descriptor
      f type member) pool := by
  refine (draws_addClass hpool hclass).bind fun type mid htype hmid => ?_
  refine (draws_addNameAndType hmid hpair).bind fun member last hmember hlast => ?_
  have hgrows : mid.GrowsTo last := (repeats_addNameAndType name descriptor).moves.of_gives hmember
  have howner := denotes_addClass owner htype (hgrows.within hlast.bounded.within)
  have hparts := denotes_addNameAndType name descriptor hmember hlast.bounded.within
  exact hf type member last hlast howner hparts.1

/-- A request asks for what it needs, and for nothing else. -/
theorem draws_run (hplain : ∀ body, addition ≠ .attributeOf body)
    (hwanted : addition.needs ⊆ wanted) : Draws wanted addition.run pool := by
  cases addition with
  | utf8 text =>
    have hdraws := draws_addUtf8 hpool (hwanted (Finset.mem_singleton_self _))
    exact hdraws.bind fun _ _ _ hmid => draws_pure hmid _
  | integer value => exact draws_add hpool .integer (hwanted (Finset.mem_singleton_self _))
  | type name => exact (draws_addClass hpool hwanted).bind fun _ _ _ hmid => draws_pure hmid _
  | string text => exact (draws_addString hpool hwanted).bind fun _ _ _ hmid => draws_pure hmid _
  | nameAndType name descriptor =>
    exact (draws_addNameAndType hpool hwanted).bind fun _ _ _ hmid => draws_pure hmid _
  | fieldRef owner name descriptor =>
    rw [Addition.needs_fieldRef, Finset.union_subset_iff, Finset.union_subset_iff,
      Finset.singleton_subset_iff] at hwanted
    obtain ⟨hclass, hpair, hfield⟩ := hwanted
    have hdraws : Draws wanted (addFieldRef owner name descriptor) pool :=
      draws_member hpool hclass hpair fun type member last hlast htype hmember =>
        draws_add hlast (.fieldRef htype hmember) hfield
    exact hdraws.bind fun _ _ _ hmid => draws_pure hmid _
  | methodRef owner name descriptor =>
    rw [Addition.needs_methodRef, Finset.union_subset_iff, Finset.union_subset_iff,
      Finset.singleton_subset_iff] at hwanted
    obtain ⟨hclass, hpair, hmethod⟩ := hwanted
    have hdraws : Draws wanted (addMethodRef owner name descriptor) pool :=
      draws_member hpool hclass hpair fun type member last hlast htype hmember =>
        draws_add hlast (.methodRef htype hmember) hmethod
    exact hdraws.bind fun _ _ _ hmid => draws_pure hmid _
  | attributeOf body => exact absurd rfl (hplain body)

end Requests

theorem resolved_run (addition : Addition) : Moves (Preserves Resolved) addition.run := by
  by_cases hplain : ∀ body, addition ≠ .attributeOf body
  · intro pool hpool
    exact (draws_run hpool hplain (Finset.Subset.refl _)).fills.resolved
  · obtain ⟨body, rfl⟩ : ∃ body, addition = .attributeOf body := by simpa using hplain
    have hname : Moves (Preserves Resolved) (addUtf8 body.kind.name) := fun pool hpool =>
      (draws_addUtf8 hpool (Finset.mem_singleton_self _)).fills.resolved
    have hattribute : Moves (Preserves Resolved) body.toAttribute :=
      moves_bind hname fun _ => moves_bind (moves_ofExcept _) fun _ => moves_pure _
    exact moves_bind hattribute fun _ => moves_pure _

theorem Reachable.resolved (h : pool.Reachable) : pool.Resolved := by
  obtain ⟨additions, rfl⟩ := h
  exact Run.final_of_kept Addition.run resolved_run resolved_empty additions

/-! ### What a constant is made of is there -/

theorem mem_of_constantAt? {constants : List Constant} {index : Index kind}
    (h : constantAt? constants index = some constant) : constant ∈ constants :=
  List.mem_of_getElem? (constantAt?_eq_some_iff.mp h).2

theorem utf8_mem_made {index : Index .utf8} {text : String}
    (h : textAt? pool.toList index = some text) : .utf8 text ∈ pool.made :=
  mem_made_iff.mpr ⟨_, mem_of_constantAt? (textAt?_eq_some_iff.mp h), .utf8⟩

theorem needs_subset_of_classAt? {index : Index .type} {name : String}
    (h : classAt? pool.toList index = some name) : (Addition.type name).needs ⊆ pool.made := by
  obtain ⟨text, htype, hname⟩ := classAt?_eq_some_iff.mp h
  have hmade : .type name ∈ pool.made :=
    mem_made_iff.mpr ⟨_, mem_of_constantAt? htype, .type hname⟩
  simp [Addition.needs, Finset.insert_subset_iff, utf8_mem_made hname, hmade]

theorem needs_subset_of_memberAt? {index : Index .nameAndType} {name descriptor : String}
    (h : memberAt? pool.toList index = some (name, descriptor)) :
    (Addition.nameAndType name descriptor).needs ⊆ pool.made := by
  obtain ⟨first, second, hpair, hname, hdescriptor⟩ := memberAt?_eq_some_iff.mp h
  have hmade : .nameAndType name descriptor ∈ pool.made :=
    mem_made_iff.mpr ⟨_, mem_of_constantAt? hpair, .nameAndType hname hdescriptor⟩
  simp [Addition.needs, Finset.insert_subset_iff, utf8_mem_made hname, utf8_mem_made hdescriptor,
    hmade]

/-- A pool that has a constant has all that it is made of. -/
theorem needs_subset_made (h : addition ∈ pool.made) : addition.needs ⊆ pool.made := by
  obtain ⟨constant, -, hmade⟩ := mem_made_iff.mp h
  cases hmade with
  | utf8 => exact Finset.singleton_subset_iff.mpr h
  | integer => exact Finset.singleton_subset_iff.mpr h
  | type hname => simp [Addition.needs, Finset.insert_subset_iff, utf8_mem_made hname, h]
  | string htext => simp [Addition.needs, Finset.insert_subset_iff, utf8_mem_made htext, h]
  | nameAndType hname hdescriptor =>
    simp [Addition.needs, Finset.insert_subset_iff, utf8_mem_made hname,
      utf8_mem_made hdescriptor, h]
  | fieldRef howner hmember =>
    rw [Addition.needs_fieldRef, Finset.union_subset_iff, Finset.union_subset_iff,
      Finset.singleton_subset_iff]
    exact ⟨needs_subset_of_classAt? howner, needs_subset_of_memberAt? hmember, h⟩
  | methodRef howner hmember =>
    rw [Addition.needs_methodRef, Finset.union_subset_iff, Finset.union_subset_iff,
      Finset.singleton_subset_iff]
    exact ⟨needs_subset_of_classAt? howner, needs_subset_of_memberAt? hmember, h⟩

/-! ### Exactness -/

section Exact

variable (hpool : pool.Resolved) (hplain : ∀ body, addition ≠ .attributeOf body)
include hpool hplain

/-- A request that succeeds lacks nothing afterwards. -/
theorem needs_subset_of_gives {index : Index .any} (h : Gives addition.run pool index later) :
    addition.needs ⊆ later.made := by
  have hlater : later.Resolved := (resolved_run addition).of_gives h hpool
  have hmade : madeFrom? later.toList index = some addition := by
    have hserves := serves_run addition h hlater.bounded.within
    cases addition with
    | attributeOf body => exact absurd rfl (hplain body)
    | _ => exact hserves
  obtain ⟨constant, hconstant, hrebuild⟩ := Option.bind_eq_some_iff.mp hmade
  exact needs_subset_made (mem_made_iff.mpr
    ⟨constant, mem_of_constantAt? hconstant, rebuild?_eq_some_iff.mp hrebuild⟩)

theorem gives_exact {index : Index .any} (h : Gives addition.run pool index later) :
    later.size = pool.size + pool.lacking addition.needs ∧
      later.made = pool.made ∪ addition.needs := by
  have hfills := (draws_run hpool hplain (Finset.Subset.refl _)).fills
  rw [h.2] at hfills
  have hneeds := needs_subset_of_gives hpool hplain h
  have hnone : later.lacking addition.needs = 0 := by
    rw [lacking, Finset.sdiff_eq_empty_iff_subset.mpr hneeds, Finset.card_empty]
  constructor
  · have hlevel := hfills.level
    omega
  · exact Finset.Subset.antisymm hfills.made (Finset.union_subset (made_mono hfills.grows) hneeds)

theorem fails_exact {e : Error} (h : Fails addition.run pool e later) :
    (∃ constant, e = .poolFull constant) ∧ later.size = capacity ∧
      capacity < pool.size + pool.lacking addition.needs := by
  have hdraws := draws_run hpool hplain (Finset.Subset.refl _)
  obtain ⟨herror, hfull, hlacks⟩ := hdraws.full e h.1
  have hlevel := hdraws.fills.level
  rw [h.2] at hfull hlacks hlevel
  exact ⟨herror, hfull, by omega⟩

theorem exists_gives_iff :
    (∃ index later, Gives addition.run pool index later) ↔ pool.Room addition.needs := by
  unfold Room
  constructor
  · rintro ⟨index, later, h⟩
    have hlater : later.Resolved := (resolved_run addition).of_gives h hpool
    rw [← (gives_exact hpool hplain h).1]
    exact hlater.bounded
  · intro hroom
    obtain ⟨index, h⟩ | ⟨e, h⟩ := gives_or_fails addition.run pool
    · exact ⟨index, _, h⟩
    · have hfull := (fails_exact hpool hplain h).2.2
      omega

end Exact

/-- **Exact capacity.** A request for a constant succeeds exactly if those of the constants it needs
that the pool lacks, each counted once, fit into the places that are left of 65534. Then so many
constants stand at the end of the pool, and they are those that were needed. Otherwise the request
fails for want of room and leaves the pool full, and made again it fails in the same way and changes
nothing. -/
theorem capacity_exact (hpool : pool.Reachable) (hplain : ∀ body, addition ≠ .attributeOf body) :
    let outcome := addition.run pool
    ((∃ index, outcome.result = .ok index) ↔ pool.lacking addition.needs ≤ 65534 - pool.size) ∧
    (∀ index, outcome.result = .ok index →
      ∃ added, outcome.state.toList = pool.toList ++ added ∧
        added.length = pool.lacking addition.needs ∧
        outcome.state.made = pool.made ∪ addition.needs) ∧
    ∀ e, outcome.result = .error e →
      (∃ constant, e = .poolFull constant) ∧
      (∃ added, outcome.state.toList = pool.toList ++ added) ∧ outcome.state.size = 65534 ∧
      (addition.run outcome.state).result = .error e ∧
      (addition.run outcome.state).state = outcome.state := by
  intro outcome
  have hresolved := hpool.resolved
  have hgrows : pool.GrowsTo outcome.state := (repeats_run addition).moves pool
  refine ⟨?_, fun index hindex => ?_, fun e he => ?_⟩
  · have hbounded : pool.size ≤ 65534 := hresolved.bounded
    calc (∃ index, outcome.result = .ok index)
        ↔ ∃ index later, Gives addition.run pool index later :=
          ⟨fun ⟨index, h⟩ => ⟨index, _, gives_of_result h⟩, fun ⟨index, _, h⟩ => ⟨index, h.1⟩⟩
      _ ↔ pool.size + pool.lacking addition.needs ≤ 65534 := exists_gives_iff hresolved hplain
      _ ↔ pool.lacking addition.needs ≤ 65534 - pool.size := by omega
  · have hgives : Gives addition.run pool index outcome.state := ⟨hindex, rfl⟩
    obtain ⟨hsize, hmade⟩ := gives_exact hresolved hplain hgives
    obtain ⟨added, hadded⟩ := hgrows
    refine ⟨added, hadded.symm, ?_, hmade⟩
    have hlength := congrArg List.length hadded
    rw [List.length_append, Registry.length_toList, Registry.length_toList] at hlength
    omega
  · have hfails : Fails addition.run pool e outcome.state := ⟨he, rfl⟩
    obtain ⟨herror, hfull, -⟩ := fails_exact hresolved hplain hfails
    obtain ⟨added, hadded⟩ := hgrows
    obtain ⟨hagain, hsame⟩ := (repeats_run addition).fails hfails
    exact ⟨herror, ⟨added, hadded.symm⟩, hfull, hagain, hsame⟩

/-- The pool of the numbers below the bound. -/
def numbers (n : Nat) : Pool :=
  Run.final Addition.run ((List.range n).map fun i => .integer (.ofNat i)) .empty

theorem reachable_numbers (n : Nat) : (numbers n).Reachable := ⟨_, rfl⟩

theorem numbers_succ (n : Nat) :
    numbers (n + 1) = ((Addition.integer (.ofNat n)).run (numbers n)).state := by
  rw [numbers, List.range_succ, List.map_append, Run.final_append]
  rfl

theorem ofNat_inj_of_lt {a b : Nat} (ha : a < 65536) (hb : b < 65536)
    (h : Int32.ofNat a = Int32.ofNat b) : a = b := by
  have hint := congrArg Int32.toInt h
  rw [Int32.toInt_ofNat_of_lt (by omega), Int32.toInt_ofNat_of_lt (by omega)] at hint
  exact Int.ofNat_inj.mp hint

theorem numbers_exact {n : Nat} (hn : n ≤ capacity) :
    (numbers n).size = n ∧
      (numbers n).made = (Finset.range n).image fun i => .integer (.ofNat i) := by
  induction n with
  | zero => exact ⟨rfl, rfl⟩
  | succ n ih =>
    obtain ⟨hsize, hmade⟩ := ih (by omega)
    have hnew : Addition.integer (.ofNat n) ∉ (numbers n).made := by
      rw [hmade, Finset.mem_image]
      rintro ⟨i, hi, heq⟩
      rw [Finset.mem_range] at hi
      unfold capacity at hn
      have := ofNat_inj_of_lt (by omega) (by omega) (Addition.integer.inj heq)
      omega
    have hlacking : (numbers n).lacking (Addition.integer (.ofNat n)).needs = 1 := by
      rw [lacking, Addition.needs, Finset.sdiff_eq_self_of_disjoint
        (Finset.disjoint_singleton_left.mpr hnew), Finset.card_singleton]
    have hresolved := (reachable_numbers n).resolved
    have hplain : ∀ body, Addition.integer (.ofNat n) ≠ .attributeOf body := by simp
    have hroom : (numbers n).Room (Addition.integer (.ofNat n)).needs := by
      unfold Room
      omega
    obtain ⟨index, later, hgives⟩ := (exists_gives_iff hresolved hplain).mpr hroom
    obtain ⟨hsize', hmade'⟩ := gives_exact hresolved hplain hgives
    rw [numbers_succ, hgives.2]
    constructor
    · omega
    · rw [hmade', hmade, Addition.needs, Finset.range_add_one, Finset.image_insert,
        Finset.insert_eq, Finset.union_comm]

theorem lacking_numbers {n : Nat} (hn : n ≤ capacity)
    (hother : ∀ value, .integer value ∉ wanted) : (numbers n).lacking wanted = wanted.card := by
  have hdisjoint : Disjoint wanted (numbers n).made := by
    rw [(numbers_exact hn).2, Finset.disjoint_right]
    intro addition hmem
    obtain ⟨i, -, rfl⟩ := Finset.mem_image.mp hmem
    exact hother _
  rw [lacking, Finset.sdiff_eq_self_of_disjoint hdisjoint]

/-- A method of which all texts are the same takes four places. -/
theorem capacity_exact_numbers :
    let addition := Addition.methodRef "a" "a" "a"
    (∃ added, (addition.run (numbers 65530)).state.toList = (numbers 65530).toList ++ added ∧
      added.length = 4) ∧
    ∃ e, (addition.run (numbers 65531)).result = .error e ∧
      (addition.run (numbers 65531)).state.size = 65534 ∧
      (addition.run (addition.run (numbers 65531)).state).result = .error e := by
  intro addition
  have hplain : ∀ body, Addition.methodRef "a" "a" "a" ≠ .attributeOf body := by simp
  have hcard : addition.needs.card = 4 := by decide
  have hlacking : ∀ n ≤ capacity, (numbers n).lacking addition.needs = 4 := by
    intro n hn
    rw [lacking_numbers hn (by simp [addition, Addition.needs]), hcard]
  constructor
  · obtain ⟨hroom, hgives, -⟩ := capacity_exact (reachable_numbers 65530) hplain
    have hle : 65530 ≤ capacity := by decide
    rw [hlacking 65530 hle, (numbers_exact hle).1] at hroom
    obtain ⟨index, hindex⟩ := hroom.mpr (by decide)
    obtain ⟨added, hadded, hlength, -⟩ := hgives index hindex
    exact ⟨added, hadded, hlength.trans (hlacking 65530 hle)⟩
  · obtain ⟨hroom, -, hfails⟩ := capacity_exact (reachable_numbers 65531) hplain
    have hle : 65531 ≤ capacity := by decide
    rw [hlacking 65531 hle, (numbers_exact hle).1] at hroom
    obtain ⟨index, h⟩ | ⟨e, h⟩ := gives_or_fails addition.run (numbers 65531)
    · exact absurd (hroom.mp ⟨index, h.1⟩) (by decide)
    · obtain ⟨-, -, hfull, hagain, -⟩ := hfails e h.1
      exact ⟨e, h.1, hfull, hagain⟩

end Classfile.Pool
