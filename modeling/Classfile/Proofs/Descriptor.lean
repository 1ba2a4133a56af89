import Classfile.Descriptor.Parser

/-!
# Descriptors read back

The grammar of descriptors is said apart from the readers. Every reader takes the written form of a
value from the front of its input and nothing else, whatever follows; so a text is read to its end
exactly if it is in the grammar, and then it is the written form of what was read. The only types
that are not read back are the arrays whose number of dimensions wraps around: they are written
without a bracket.
-/

namespace Classfile

/-- A class name that a descriptor can hold. -/
def IsClassName (name : String) : Prop :=
  name ≠ "" ∧ ∀ c ∈ name.toList, c ≠ '.' ∧ c ≠ '[' ∧ c ≠ ';'

def Element.WellNamed : Element → Prop
  | base _ => True
  | object name => IsClassName name

def FieldType.WellNamed (type : FieldType) : Prop := type.element.WellNamed

def MethodType.WellNamed (type : MethodType) : Prop :=
  (∀ parameter ∈ type.parameters, parameter.WellNamed) ∧ ∀ result ∈ type.result, result.WellNamed

/-- The number of dimensions does not wrap around. -/
def FieldType.Counted : FieldType → Prop
  | bare _ => True
  | nested extra _ => extra ≠ 0xFFFFFFFFFFFFFFFF

def MethodType.Counted (type : MethodType) : Prop :=
  (∀ parameter ∈ type.parameters, parameter.Counted) ∧ ∀ result ∈ type.result, result.Counted

/-- The type is read back from its descriptor. -/
def FieldType.Readable (type : FieldType) : Prop := type.WellNamed ∧ type.Counted

def MethodType.Readable (type : MethodType) : Prop :=
  (∀ parameter ∈ type.parameters, parameter.Readable) ∧ ∀ result ∈ type.result, result.Readable

instance (name : String) : Decidable (IsClassName name) :=
  decidable_of_iff (name ≠ "" ∧ name.toList.all fun c => c ≠ '.' ∧ c ≠ '[' ∧ c ≠ ';')
    (by simp only [IsClassName, List.all_eq_true, decide_eq_true_eq])

instance : (element : Element) → Decidable element.WellNamed
  | .base _ => isTrue trivial
  | .object name => inferInstanceAs (Decidable (IsClassName name))

instance (type : FieldType) : Decidable type.WellNamed :=
  inferInstanceAs (Decidable type.element.WellNamed)

instance (type : MethodType) : Decidable type.WellNamed := inferInstanceAs (Decidable (_ ∧ _))

instance : (type : FieldType) → Decidable type.Counted
  | .bare _ => isTrue trivial
  | .nested extra _ => inferInstanceAs (Decidable (extra ≠ 0xFFFFFFFFFFFFFFFF))

instance (type : MethodType) : Decidable type.Counted := inferInstanceAs (Decidable (_ ∧ _))

/-! ### Counted dimensions -/

namespace FieldType

variable {type : FieldType} {n : Nat} {element : Element}

@[simp]
theorem element_ofDims (n : Nat) (element : Element) : (ofDims n element).element = element := by
  cases n <;> rfl

theorem toNat_dims_ofDims (h : n < UInt64.size) : (ofDims n element).dims.toNat = n := by
  cases n with
  | zero => rfl
  | succ extra =>
    change (UInt64.ofNat extra + 1).toNat = extra + 1
    rw [← UInt64.ofNat_one, ← UInt64.ofNat_add]
    exact UInt64.toNat_ofNat_of_lt' h

theorem counted_ofDims (h : n < UInt64.size) : (ofDims n element).Counted := by
  cases n with
  | zero => trivial
  | succ extra =>
    intro hlargest
    have hextra := congrArg UInt64.toNat hlargest
    rw [UInt64.toNat_ofNat_of_lt' (Nat.lt_of_succ_lt h)] at hextra
    subst hextra
    exact absurd h (by decide)

theorem descriptor_ofDims (h : n < UInt64.size) :
    (ofDims n element).descriptor = List.replicate n '[' ++ element.descriptor := by
  rw [descriptor, toNat_dims_ofDims h, element_ofDims]

/-- The type that the descriptor spells. -/
def spelled (type : FieldType) : FieldType := ofDims type.dims.toNat type.element

theorem counted_spelled (type : FieldType) : type.spelled.Counted :=
  counted_ofDims type.dims.toNat_lt_size

theorem descriptor_spelled (type : FieldType) : type.spelled.descriptor = type.descriptor :=
  descriptor_ofDims type.dims.toNat_lt_size

theorem WellNamed.spelled (h : type.WellNamed) : type.spelled.WellNamed := by
  rwa [WellNamed, FieldType.spelled, element_ofDims]

theorem Counted.toNat_dims {extra : UInt64} (h : (nested extra element).Counted) :
    (nested extra element).dims.toNat = extra.toNat + 1 := by
  have hlt := extra.toNat_lt
  have hne : extra.toNat ≠ 0xFFFFFFFFFFFFFFFF := fun heq => h (UInt64.toNat_inj.mp heq)
  change (extra + 1).toNat = _
  rw [UInt64.toNat_add]
  change (extra.toNat + 1) % _ = _
  omega

theorem spelled_eq_self_iff : type.spelled = type ↔ type.Counted := by
  constructor
  · intro h
    rw [← h]
    exact type.counted_spelled
  · intro h
    cases type with
    | bare element => rfl
    | nested extra element =>
      rw [spelled, h.toNat_dims]
      exact congrArg (nested · element) UInt64.ofNat_toNat

/-- At the largest count the brackets are lost. -/
theorem spelled_of_not_counted (h : ¬ type.Counted) : type.spelled = bare type.element := by
  cases type with
  | bare element => exact absurd trivial h
  | nested extra element =>
    obtain rfl : extra = 0xFFFFFFFFFFFFFFFF := Decidable.not_not.mp h
    rfl

end FieldType

namespace MethodType

variable {type : MethodType}

theorem readable_iff : type.Readable ↔ type.WellNamed ∧ type.Counted := by
  simp only [Readable, WellNamed, Counted, FieldType.Readable, forall_and]
  exact and_and_and_comm

def spelled (type : MethodType) : MethodType :=
  ⟨type.parameters.map FieldType.spelled, type.result.map FieldType.spelled⟩

theorem WellNamed.readable_spelled (h : type.WellNamed) : type.spelled.Readable := by
  refine ⟨fun parameter hparameter => ?_, fun result hresult => ?_⟩
  · obtain ⟨origin, horigin, rfl⟩ := List.mem_map.mp hparameter
    exact ⟨(h.1 origin horigin).spelled, origin.counted_spelled⟩
  · obtain ⟨origin, horigin, rfl⟩ := Option.map_eq_some_iff.mp hresult
    exact ⟨(h.2 origin horigin).spelled, origin.counted_spelled⟩

theorem descriptor_spelled (type : MethodType) : type.spelled.descriptor = type.descriptor := by
  obtain ⟨parameters, _ | result⟩ := type <;>
    simp [spelled, descriptor, List.flatMap_map, FieldType.descriptor_spelled]

theorem result_spelled_iff :
    type.spelled.result = type.result ↔ ∀ result ∈ type.result, result.Counted := by
  obtain ⟨parameters, _ | result⟩ := type <;> simp [spelled, FieldType.spelled_eq_self_iff]

theorem spelled_eq_self_iff : type.spelled = type ↔ type.Counted := by
  have hparameters : type.spelled.parameters = type.parameters ↔
      ∀ parameter ∈ type.parameters, parameter.Counted := by
    have hsame := List.map_inj_left (l := type.parameters) (f := FieldType.spelled) (g := id)
    simpa [spelled, FieldType.spelled_eq_self_iff] using hsame
  rw [Counted, ← hparameters, ← result_spelled_iff, ← MethodType.mk.injEq]

end MethodType

namespace Descriptor

/-! ### Grammar -/

inductive IsField : List Char → Prop where
  | base {letter : Char} (hletter : letter ∈ ['B', 'C', 'D', 'F', 'I', 'J', 'S', 'Z']) :
      IsField [letter]
  | object {name : List Char} (hne : name ≠ [])
      (hname : ∀ c ∈ name, c ≠ '.' ∧ c ≠ '[' ∧ c ≠ ';') : IsField ('L' :: name ++ [';'])
  | array {component : List Char} (hcomponent : IsField component) : IsField ('[' :: component)

inductive IsMethod : List Char → Prop where
  | void {parameters : List (List Char)} (hparameters : ∀ form ∈ parameters, IsField form) :
      IsMethod ('(' :: parameters.flatten ++ [')', 'V'])
  | value {parameters : List (List Char)} {result : List Char}
      (hparameters : ∀ form ∈ parameters, IsField form) (hresult : IsField result) :
      IsMethod ('(' :: parameters.flatten ++ ')' :: result)

theorem mem_letters_iff {c : Char} :
    c ∈ ['B', 'C', 'D', 'F', 'I', 'J', 'S', 'Z'] ↔ ∃ type : BaseType, type.letter = c := by
  have hletters : ['B', 'C', 'D', 'F', 'I', 'J', 'S', 'Z'] = BaseType.all.map BaseType.letter := rfl
  rw [hletters, List.mem_map]
  constructor
  · rintro ⟨type, -, htype⟩
    exact ⟨type, htype⟩
  · rintro ⟨type, htype⟩
    exact ⟨type, by cases type <;> decide, htype⟩

theorem isField_replicate {element : Element} (h : element.WellNamed) (n : Nat) :
    IsField (List.replicate n '[' ++ element.descriptor) := by
  induction n with
  | zero =>
    cases element with
    | base type => exact .base (mem_letters_iff.mpr ⟨type, rfl⟩)
    | object name =>
      refine .object ?_ h.2
      intro hempty
      exact h.1 (String.toList_inj.mp hempty)
  | succ n ih => exact .array ih

/-- A field descriptor is an element after some brackets. -/
theorem isField_iff {cs : List Char} : IsField cs ↔
    ∃ n, ∃ element : Element, element.WellNamed ∧
      List.replicate n '[' ++ element.descriptor = cs := by
  constructor
  · intro h
    induction h with
    | base hletter =>
      obtain ⟨base, rfl⟩ := mem_letters_iff.mp hletter
      exact ⟨0, .base base, trivial, rfl⟩
    | @object name hne hname =>
      refine ⟨0, .object (String.ofList name), ⟨?_, ?_⟩, ?_⟩
      · intro hempty
        apply hne
        rw [← String.toList_ofList (l := name), hempty]
        rfl
      · rwa [String.toList_ofList]
      · simp [Element.descriptor]
    | array _ ih =>
      obtain ⟨n, element, hnamed, rfl⟩ := ih
      exact ⟨n + 1, element, hnamed, rfl⟩
  · rintro ⟨n, element, hnamed, rfl⟩
    exact isField_replicate hnamed n

theorem isField_descriptor {type : FieldType} (h : type.WellNamed) : IsField type.descriptor :=
  isField_replicate h _

/-- A descriptor that is not too long to be counted is that of a type. -/
theorem exists_of_isField {cs : List Char} (h : IsField cs) (hcs : cs.length < UInt64.size) :
    ∃ type : FieldType, type.Readable ∧ type.descriptor = cs := by
  obtain ⟨n, element, hnamed, rfl⟩ := isField_iff.mp h
  have hn : n < UInt64.size := by
    rw [List.length_append, List.length_replicate] at hcs
    omega
  refine ⟨.ofDims n element, ⟨?_, FieldType.counted_ofDims hn⟩, FieldType.descriptor_ofDims hn⟩
  rwa [FieldType.WellNamed, FieldType.element_ofDims]

/-! ### Readers -/

/-- The reader takes a written form of the value from the front of the input and leaves the rest. -/
def Takes {α : Type} (reader : Reader α) (WellNamed : α → Prop) (written : α → List Char) : Prop :=
  ∀ cs a rest, reader cs = .ok (a, rest) ↔ WellNamed a ∧ cs = written a ++ rest

theorem Takes.append {α : Type} {reader : Reader α} {WellNamed : α → Prop} {written : α → List Char}
    (h : Takes reader WellNamed written) {a : α} (ha : WellNamed a) (rest : List Char) :
    reader (written a ++ rest) = .ok (a, rest) :=
  (h _ a rest).mpr ⟨ha, rfl⟩

theorem map_eq_ok_iff {ε α β : Type} {x : Except ε α} {f : α → β} {b : β} :
    x.map f = .ok b ↔ ∃ a, x = .ok a ∧ f a = b := by
  cases x <;> simp [Except.map]

theorem ofLetter?_eq_some_iff {c : Char} {type : BaseType} :
    BaseType.ofLetter? c = some type ↔ type.letter = c := by
  constructor
  · intro h
    have hfound := List.find?_some (p := fun type : BaseType => type.letter == c) h
    exact eq_of_beq hfound
  · rintro rfl
    cases type <;> rfl

theorem takes_readBase : Takes readBase (fun _ => True) fun type => [type.letter] := by
  intro cs type rest
  cases cs with
  | nil => simp [readBase]
  | cons c tail =>
    have hread : readBase (c :: tail) = .ok (type, rest) ↔
        BaseType.ofLetter? c = some type ∧ tail = rest := by
      cases hletter : BaseType.ofLetter? c <;> simp [readBase, hletter]
    rw [hread, ofLetter?_eq_some_iff]
    simp [eq_comm]

theorem isNameChar_iff {c : Char} : isNameChar c ↔ c ≠ '.' ∧ c ≠ '[' ∧ c ≠ ';' := by
  simp only [isNameChar, Bool.and_eq_true, bne_iff_ne]
  rw [and_assoc, and_comm, and_assoc]

theorem takes_readClassName :
    Takes readClassName IsClassName fun name => 'L' :: name.toList ++ [';'] := by
  intro cs name rest
  constructor
  · intro h
    unfold readClassName at h
    split at h
    · next tail =>
      have htail := List.takeWhile_append_dropWhile (p := isNameChar) (l := tail)
      have hname := List.all_takeWhile (p := isNameChar) (l := tail)
      dsimp only at h
      split at h
      · cases h
      · next after hdrop =>
        split at h
        · cases h
        · next hne =>
          cases h
          rw [hdrop] at htail
          refine ⟨⟨?_, ?_⟩, ?_⟩
          · simpa using hne
          · intro c hc
            rw [String.toList_ofList] at hc
            exact isNameChar_iff.mp (List.all_eq_true.mp hname c hc)
          · simpa using htail.symm
      · cases h
    · cases h
  · rintro ⟨⟨hne, hname⟩, rfl⟩
    have hchars : ∀ c ∈ name.toList, isNameChar c := fun c hc => isNameChar_iff.mpr (hname c hc)
    have hend : isNameChar ';' = false := rfl
    have htake : (name.toList ++ ';' :: rest).takeWhile isNameChar = name.toList := by
      rw [List.takeWhile_append_of_pos hchars, List.takeWhile_cons_of_neg (by simp [hend]),
        List.append_nil]
    have hdrop : (name.toList ++ ';' :: rest).dropWhile isNameChar = ';' :: rest := by
      rw [List.dropWhile_append_of_pos hchars, List.dropWhile_cons_of_neg (by simp [hend])]
    simp [readClassName, htake, hdrop, hne]

theorem takes_readArrayElement : Takes readArrayElement Element.WellNamed Element.descriptor := by
  intro cs element rest
  unfold readArrayElement
  split
  · next tail =>
    rw [map_eq_ok_iff]
    constructor
    · rintro ⟨⟨name, after⟩, hread, heq⟩
      cases heq
      exact (takes_readClassName _ _ _).mp hread
    · rintro ⟨hnamed, hcs⟩
      cases element with
      | base type =>
        have hletter : type.letter = 'L' := (List.cons.inj hcs).1.symm
        cases type <;> cases hletter
      | object name =>
        exact ⟨(name, rest), (takes_readClassName _ _ _).mpr ⟨hnamed, hcs⟩, rfl⟩
  · next hno =>
    rw [map_eq_ok_iff]
    constructor
    · rintro ⟨⟨type, after⟩, hread, heq⟩
      cases heq
      exact ⟨trivial, ((takes_readBase _ _ _).mp hread).2⟩
    · rintro ⟨-, rfl⟩
      cases element with
      | base type => exact ⟨(type, rest), (takes_readBase _ _ _).mpr ⟨trivial, rfl⟩, rfl⟩
      | object name => exact absurd rfl (hno _)

/-- Outside an array the same elements are read. Only the errors differ. -/
theorem readBareElement_eq_ok_iff {cs : List Char} {result : Element × List Char} :
    readBareElement cs = .ok result ↔ readArrayElement cs = .ok result := by
  unfold readBareElement
  split
  · simp [readArrayElement, readBase, Except.map]
  · rfl
  · next c rest hno =>
    rw [readArrayElement]
    · cases hletter : BaseType.ofLetter? c <;> simp [readBase, hletter, Except.map]
    · intro tail h
      cases h
      exact hno rfl

/-- Brackets are counted up to the first other character. -/
theorem brackets_iff {cs tail : List Char} {dims : Nat} (htail : tail.head? ≠ some '[') :
    (cs.takeWhile (· == '[')).length = dims ∧ cs.dropWhile (· == '[') = tail ↔
      cs = List.replicate dims '[' ++ tail := by
  constructor
  · rintro ⟨rfl, rfl⟩
    have hbrackets : cs.takeWhile (· == '[') =
        List.replicate (cs.takeWhile (· == '[')).length '[' := by
      apply List.eq_replicate_of_mem
      intro c hc
      exact eq_of_beq (List.all_eq_true.mp List.all_takeWhile c hc)
    rw [← hbrackets, List.takeWhile_append_dropWhile]
  · rintro rfl
    induction dims with
    | zero =>
      cases tail with
      | nil => exact ⟨rfl, rfl⟩
      | cons c rest =>
        have hc : (c == '[') = false := by simpa using htail
        simp [hc]
    | succ dims ih => simpa [List.replicate_succ] using ih

theorem head?_descriptor_append (element : Element) (rest : List Char) :
    (element.descriptor ++ rest).head? ≠ some '[' := by
  cases element with
  | base type => cases type <;> simp [Element.descriptor, BaseType.letter]
  | object name => simp [Element.descriptor]

/-- With or without brackets, an element is read after them. -/
theorem readField_eq_ok_iff {cs rest : List Char} {type : FieldType} :
    readField cs = .ok (type, rest) ↔ ∃ element,
      readArrayElement (cs.dropWhile (· == '[')) = .ok (element, rest) ∧
        FieldType.ofDims (cs.takeWhile (· == '[')).length element = type := by
  unfold readField
  split
  · next tail =>
    rw [map_eq_ok_iff]
    constructor
    · rintro ⟨⟨element, _⟩, hread, heq⟩
      cases heq
      exact ⟨element, hread, rfl⟩
    · rintro ⟨element, hread, rfl⟩
      exact ⟨(element, rest), hread, rfl⟩
  · next hno =>
    have hhead : cs.head? ≠ some '[' := by
      intro h
      obtain ⟨tail, rfl⟩ := List.head?_eq_some_iff.mp h
      exact hno tail rfl
    have hcs : cs = List.replicate 0 '[' ++ cs := rfl
    obtain ⟨htake, hdrop⟩ := (brackets_iff hhead).mpr hcs
    rw [map_eq_ok_iff, htake, hdrop]
    constructor
    · rintro ⟨⟨element, _⟩, hread, heq⟩
      cases heq
      exact ⟨element, readBareElement_eq_ok_iff.mp hread, rfl⟩
    · rintro ⟨element, hread, rfl⟩
      exact ⟨(element, rest), readBareElement_eq_ok_iff.mpr hread, rfl⟩

/-- A reader and a written form belong together if every readable value is read from the front of
its written form, and nothing else is read from a text that can be counted. -/
structure Inverts {α : Type} (reader : Reader α) (Readable : α → Prop) (written : α → List Char) :
    Prop where
  reads : ∀ {a} (rest), Readable a → reader (written a ++ rest) = .ok (a, rest)
  only : ∀ {cs a rest}, cs.length < UInt64.size → reader cs = .ok (a, rest) →
    Readable a ∧ cs = written a ++ rest

theorem inverts_readField : Inverts readField FieldType.Readable FieldType.descriptor where
  reads := by
    rintro type rest ⟨hnamed, hcounted⟩
    have hhead := head?_descriptor_append type.element rest
    obtain ⟨htake, hdrop⟩ := (brackets_iff hhead).mpr (List.append_assoc ..)
    refine readField_eq_ok_iff.mpr ⟨type.element, ?_, ?_⟩
    · rw [FieldType.descriptor, hdrop]
      exact takes_readArrayElement.append hnamed rest
    · rw [FieldType.descriptor, htake]
      exact FieldType.spelled_eq_self_iff.mpr hcounted
  only := by
    intro cs type rest hcs h
    obtain ⟨element, hread, rfl⟩ := readField_eq_ok_iff.mp h
    obtain ⟨hnamed, hdrop⟩ := (takes_readArrayElement _ _ _).mp hread
    have hbrackets := (brackets_iff (head?_descriptor_append element rest)).mp ⟨rfl, hdrop⟩
    have hcount : (cs.takeWhile (· == '[')).length < UInt64.size :=
      Nat.lt_of_le_of_lt (List.takeWhile_sublist _).length_le hcs
    refine ⟨⟨?_, FieldType.counted_ofDims hcount⟩, ?_⟩
    · rwa [FieldType.WellNamed, FieldType.element_ofDims]
    · rwa [FieldType.descriptor_ofDims hcount, List.append_assoc]

/-! ### Methods -/

/-- A field descriptor begins with neither the end of the parameters nor the mark of no result. -/
theorem exists_descriptor_eq_cons (type : FieldType) :
    ∃ c tail, type.descriptor = c :: tail ∧ c ≠ ')' ∧ c ≠ 'V' := by
  rw [FieldType.descriptor]
  cases type.dims.toNat with
  | zero =>
    cases type.element with
    | base base => exact ⟨base.letter, [], rfl, by cases base <;> decide, by cases base <;> decide⟩
    | object name => exact ⟨'L', name.toList ++ [';'], rfl, by decide, by decide⟩
  | succ n =>
    exact ⟨'[', List.replicate n '[' ++ type.element.descriptor, rfl, by decide, by decide⟩

theorem exists_of_readParameters {rounds : Nat} {read parameters : List FieldType}
    {cs rest : List Char} (hcs : cs.length < UInt64.size)
    (h : readParameters rounds read cs = .ok (parameters, rest)) :
    ∃ more : List FieldType, parameters = read.reverse ++ more ∧
      (∀ type ∈ more, type.Readable) ∧ cs = more.flatMap FieldType.descriptor ++ ')' :: rest := by
  fun_induction readParameters rounds read cs with
  | case1 =>
    cases h
    exact ⟨[], by simp⟩
  | case2 => cases h
  | case3 => cases h
  | case4 rounds read cs _ _ type after hread ih =>
    obtain ⟨hreadable, rfl⟩ := inverts_readField.only hcs hread
    have hafter : after.length < UInt64.size :=
      Nat.lt_of_le_of_lt (List.sublist_append_right _ _).length_le hcs
    obtain ⟨more, rfl, hmore, rfl⟩ := ih hafter h
    exact ⟨type :: more, by simp, by simpa using ⟨hreadable, hmore⟩, by simp⟩
  | case5 => cases h

/-- A round for every parameter is enough. -/
theorem readParameters_append {rounds : Nat} (read : List FieldType) {more : List FieldType}
    (rest : List Char) (hmore : ∀ type ∈ more, type.Readable) (hrounds : more.length ≤ rounds) :
    readParameters rounds read (more.flatMap FieldType.descriptor ++ ')' :: rest) =
      .ok (read.reverse ++ more, rest) := by
  induction more generalizing rounds read with
  | nil => simp [readParameters]
  | cons type more ih =>
    rw [List.forall_mem_cons] at hmore
    obtain ⟨rounds, rfl⟩ : ∃ fewer, rounds = fewer + 1 := ⟨rounds - 1, by simp at hrounds; omega⟩
    obtain ⟨c, tail, hdescriptor, hclose, -⟩ := exists_descriptor_eq_cons type
    have hread := inverts_readField.reads (more.flatMap FieldType.descriptor ++ ')' :: rest) hmore.1
    rw [List.flatMap_cons, List.append_assoc, readParameters, hread]
    · dsimp only
      rw [ih _ hmore.2 (Nat.le_of_succ_le_succ hrounds)]
      simp
    · intro after hafter
      rw [hdescriptor, List.cons_append] at hafter
      exact hclose (List.cons.inj hafter).1
    · rw [hdescriptor]
      simp

theorem readParameters_flatMap {parameters : List FieldType} (rest : List Char)
    (hreadable : ∀ type ∈ parameters, type.Readable) :
    readParameters (parameters.flatMap FieldType.descriptor ++ ')' :: rest).length []
      (parameters.flatMap FieldType.descriptor ++ ')' :: rest) = .ok (parameters, rest) := by
  refine readParameters_append [] rest hreadable ?_
  have hle : parameters.length ≤ (parameters.flatMap FieldType.descriptor).length := by
    clear hreadable
    induction parameters with
    | nil => exact Nat.le_refl 0
    | cons type more ih =>
      obtain ⟨c, tail, hdescriptor, -⟩ := exists_descriptor_eq_cons type
      simp only [List.flatMap_cons, List.length_append, List.length_cons, hdescriptor]
      omega
  rw [List.length_append]
  omega

theorem readMethod_append {type : MethodType} (rest : List Char) (h : type.Readable) :
    readMethod (type.descriptor ++ rest) = .ok (type, rest) := by
  obtain ⟨parameters, result⟩ := type
  obtain ⟨hparameters, hresult⟩ := h
  cases result with
  | none =>
    have hread := readParameters_flatMap ('V' :: rest) hparameters
    simp only [MethodType.descriptor, List.cons_append, List.append_assoc, List.nil_append,
      readMethod, hread]
  | some type =>
    have hread := readParameters_flatMap (type.descriptor ++ rest) hparameters
    have htype := inverts_readField.reads rest (hresult type rfl)
    obtain ⟨c, tail, hdescriptor, -, hvoid⟩ := exists_descriptor_eq_cons type
    simp only [MethodType.descriptor, List.cons_append, List.append_assoc, readMethod, hread]
    split
    · next heq =>
      have hrest := congrArg Prod.snd (Except.ok.inj heq)
      rw [hdescriptor] at hrest
      exact absurd (List.cons.inj hrest).1 hvoid
    · next heq =>
      cases heq
      rw [htype]
      rfl
    · next heq => cases heq

theorem of_readMethod {cs rest : List Char} {type : MethodType} (hcs : cs.length < UInt64.size)
    (h : readMethod cs = .ok (type, rest)) : type.Readable ∧ cs = type.descriptor ++ rest := by
  unfold readMethod at h
  split at h
  · next tail =>
    have htail : tail.length < UInt64.size := Nat.lt_of_succ_lt hcs
    split at h
    · next hread =>
      cases h
      obtain ⟨more, rfl, hmore, rfl⟩ := exists_of_readParameters htail hread
      exact ⟨⟨hmore, by simp⟩, by simp [MethodType.descriptor]⟩
    · next after _ hread =>
      obtain ⟨more, rfl, hmore, rfl⟩ := exists_of_readParameters htail hread
      obtain ⟨⟨result, last⟩, hresult, heq⟩ := map_eq_ok_iff.mp h
      cases heq
      have hafter : after.length < UInt64.size := by
        rw [List.length_append, List.length_cons] at htail
        omega
      obtain ⟨hreadable, rfl⟩ := inverts_readField.only hafter hresult
      exact ⟨⟨hmore, by simpa using hreadable⟩, by simp [MethodType.descriptor]⟩
    · cases h
  · cases h

theorem inverts_readMethod : Inverts readMethod MethodType.Readable MethodType.descriptor :=
  ⟨fun rest => readMethod_append rest, of_readMethod⟩

/-! ### Whole texts -/

section Texts

variable {α : Type} {reader : Reader α} {Readable : α → Prop} {written : α → List Char}
  (h : Inverts reader Readable written) {a b : α}

theorem parse_eq_ok_iff {source : String} :
    parse reader source = .ok a ↔ reader source.toList = .ok (a, []) := by
  unfold parse
  split <;> simp_all

include h

theorem Inverts.parse_written (ha : Readable a) :
    parse reader (String.ofList (written a)) = .ok a := by
  have hread := h.reads [] ha
  rwa [List.append_nil, ← String.toList_ofList (l := written a), ← parse_eq_ok_iff] at hread

theorem Inverts.of_parse {source : String} (hsource : source.length < UInt64.size)
    (hparse : parse reader source = .ok a) : Readable a ∧ String.ofList (written a) = source := by
  obtain ⟨hreadable, hchars⟩ := h.only hsource (parse_eq_ok_iff.mp hparse)
  rw [List.append_nil] at hchars
  exact ⟨hreadable, by rw [← hchars, String.ofList_toList]⟩

theorem Inverts.exists_parse_iff {Grammar : List Char → Prop}
    (hwritten : ∀ {a}, Readable a → Grammar (written a))
    (hgrammar : ∀ {cs}, Grammar cs → cs.length < UInt64.size → ∃ a, Readable a ∧ written a = cs)
    {source : String} (hsource : source.length < UInt64.size) :
    (∃ a, parse reader source = .ok a) ↔ Grammar source.toList := by
  constructor
  · rintro ⟨a, hparse⟩
    obtain ⟨ha, rfl⟩ := h.of_parse hsource hparse
    rw [String.toList_ofList]
    exact hwritten ha
  · intro htext
    obtain ⟨a, ha, hchars⟩ := hgrammar htext hsource
    have hparse := h.parse_written ha
    rw [hchars, String.ofList_toList] at hparse
    exact ⟨a, hparse⟩

theorem Inverts.text_append (ha : Readable a) (rest : String) :
    reader (String.ofList (written a) ++ rest).toList = .ok (a, rest.toList) := by
  rw [String.toList_append, String.toList_ofList]
  exact h.reads rest.toList ha

theorem Inverts.eq_of_written (ha : Readable a) (hb : Readable b)
    (hwritten : String.ofList (written a) = String.ofList (written b)) : a = b := by
  have hparse := h.parse_written ha
  rw [hwritten, h.parse_written hb] at hparse
  exact (Except.ok.inj hparse).symm

end Texts

/-- What is read back is what the descriptor spells. -/
theorem parse_render_field {type : FieldType} (h : type.WellNamed) :
    FieldType.parse type.render = .ok type.spelled := by
  rw [FieldType.render, ← type.descriptor_spelled]
  exact inverts_readField.parse_written ⟨h.spelled, type.counted_spelled⟩

theorem parse_render_method {type : MethodType} (h : type.WellNamed) :
    MethodType.parse type.render = .ok type.spelled := by
  rw [MethodType.render, ← type.descriptor_spelled]
  exact inverts_readMethod.parse_written h.readable_spelled

theorem exists_of_forall_isField {forms : List (List Char)} (h : ∀ form ∈ forms, IsField form)
    (hforms : forms.flatten.length < UInt64.size) :
    ∃ types : List FieldType, (∀ type ∈ types, type.Readable) ∧
      types.map FieldType.descriptor = forms := by
  induction forms with
  | nil => exact ⟨[], by simp⟩
  | cons form forms ih =>
    rw [List.forall_mem_cons] at h
    rw [List.flatten_cons, List.length_append] at hforms
    obtain ⟨type, hreadable, rfl⟩ := exists_of_isField h.1 (by omega)
    obtain ⟨types, htypes, rfl⟩ := ih h.2 (by omega)
    exact ⟨type :: types, List.forall_mem_cons.mpr ⟨hreadable, htypes⟩, rfl⟩

theorem exists_of_isMethod {cs : List Char} (h : IsMethod cs) (hcs : cs.length < UInt64.size) :
    ∃ type : MethodType, type.Readable ∧ type.descriptor = cs := by
  cases h with
  | @void forms hparameters =>
    have hforms : forms.flatten.length < UInt64.size := by
      simp only [List.cons_append, List.length_cons, List.length_append] at hcs
      omega
    obtain ⟨types, htypes, rfl⟩ := exists_of_forall_isField hparameters hforms
    exact ⟨⟨types, none⟩, ⟨htypes, by simp⟩, by simp [MethodType.descriptor, List.flatMap]⟩
  | @value forms result hparameters hresult =>
    simp only [List.cons_append, List.length_cons, List.length_append] at hcs
    obtain ⟨types, htypes, rfl⟩ := exists_of_forall_isField hparameters (by omega)
    obtain ⟨last, hlast, rfl⟩ := exists_of_isField hresult (by omega)
    exact ⟨⟨types, some last⟩, ⟨htypes, by simpa using hlast⟩,
      by simp [MethodType.descriptor, List.flatMap]⟩

theorem isMethod_descriptor {type : MethodType} (h : type.WellNamed) :
    IsMethod type.descriptor := by
  obtain ⟨parameters, result⟩ := type
  have hfields : ∀ form ∈ parameters.map FieldType.descriptor, IsField form := by
    intro form hform
    obtain ⟨parameter, hparameter, rfl⟩ := List.mem_map.mp hform
    exact isField_descriptor (h.1 parameter hparameter)
  cases result with
  | none => exact .void hfields
  | some result => exact .value hfields (isField_descriptor (h.2 result rfl))

theorem readField_render_append {type : FieldType} (h : type.WellNamed) (rest : String) :
    readField (type.render ++ rest).toList = .ok (type.spelled, rest.toList) := by
  rw [FieldType.render, ← type.descriptor_spelled]
  exact inverts_readField.text_append ⟨h.spelled, type.counted_spelled⟩ rest

theorem readMethod_render_append {type : MethodType} (h : type.WellNamed) (rest : String) :
    readMethod (type.render ++ rest).toList = .ok (type.spelled, rest.toList) := by
  rw [MethodType.render, ← type.descriptor_spelled]
  exact inverts_readMethod.text_append h.readable_spelled rest

/-- A method whose class name looks like a descriptor, followed by what looks like one more. -/
def trickyMethod : MethodType :=
  ⟨[.nested 1 (.object "p/(V)I"), .int], some (.nested 0 (.base .double))⟩

end Descriptor

end Classfile
