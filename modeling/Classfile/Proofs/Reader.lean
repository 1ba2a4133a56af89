import Classfile.Bytes

/-!
# Reading bytes

A reader takes a value from the front of the bytes and leaves the rest. A reader reads a piece of
bytes as a value if it does so whatever follows the piece. Readers made of others then read their
pieces one after the other.
-/

namespace Classfile

abbrev Reader := StateT (List UInt8) Option

namespace Reader

variable {α β : Type}

/-- The bytes are read as the value, and nothing that follows them is touched. -/
def Reads (reader : Reader α) (bytes : List UInt8) (a : α) : Prop :=
  ∀ rest, reader (bytes ++ rest) = some (a, rest)

theorem reads_pure (a : α) : Reads (pure a) [] a := fun _ => rfl

theorem Reads.bind {x : Reader α} {f : α → Reader β} {first second : List UInt8} {a : α} {b : β}
    (hx : Reads x first a) (hf : Reads (f a) second b) : Reads (x >>= f) (first ++ second) b := by
  intro rest
  change (x (first ++ second ++ rest)).bind _ = _
  rw [List.append_assoc, hx]
  exact hf rest

theorem Reads.bind_nil {x : Reader α} {f : α → Reader β} {bytes : List UInt8} {a : α} {b : β}
    (hx : Reads x bytes a) (hf : Reads (f a) [] b) : Reads (x >>= f) bytes b := by
  have h := hx.bind hf
  rwa [List.append_nil] at h

theorem Reads.bind_pure {x : Reader α} {f : α → β} {bytes : List UInt8} {a : α}
    (hx : Reads x bytes a) : Reads (x >>= fun a => pure (f a)) bytes (f a) :=
  hx.bind_nil (reads_pure (f a))

/-! ### Words -/

def u8 : Reader UInt8
  | [] => none
  | byte :: rest => some (byte, rest)

def u16 : Reader UInt16 := do
  let high ← u8
  let low ← u8
  return UInt16.ofNat (high.toNat * 0x100 + low.toNat)

def u32 : Reader UInt32 := do
  let high ← u16
  let low ← u16
  return UInt32.ofNat (high.toNat * 0x10000 + low.toNat)

theorem reads_u8 (byte : UInt8) : Reads u8 [byte] byte := fun _ => rfl

theorem reads_u16 (word : UInt16) : Reads u16 (Bytes.be16 word) word := by
  have hword : UInt16.ofNat ((UInt8.ofNat (word.toNat / 0x100)).toNat * 0x100 +
      (UInt8.ofNat (word.toNat % 0x100)).toNat) = word := by
    have := word.toNat_lt
    apply UInt16.toNat_inj.mp
    simp only [UInt8.toNat_ofNat', UInt16.toNat_ofNat']
    omega
  intro rest
  exact congrArg (fun word => some (word, rest)) hword

theorem be32_eq_append (word : UInt32) :
    Bytes.be32 word = Bytes.be16 (UInt16.ofNat (word.toNat / 0x10000)) ++
      Bytes.be16 (UInt16.ofNat (word.toNat % 0x10000)) := by
  have hhigh : word.toNat / 0x10000 % 2 ^ 16 = word.toNat / 0x10000 := by
    have := word.toNat_lt
    omega
  have hlow : word.toNat % 0x10000 % 2 ^ 16 / 0x100 = word.toNat / 0x100 % 0x100 := by omega
  have hmod : word.toNat % 0x10000 % 2 ^ 16 % 0x100 = word.toNat % 0x100 := by omega
  simp only [Bytes.be32, Bytes.be16, UInt16.toNat_ofNat', hhigh, hlow, hmod, Nat.div_div_eq_div_mul]
  rfl

theorem reads_u32 (word : UInt32) : Reads u32 (Bytes.be32 word) word := by
  have h := (reads_u16 (UInt16.ofNat (word.toNat / 0x10000))).bind
    (f := fun high => do
      let low ← u16
      return UInt32.ofNat (high.toNat * 0x10000 + low.toNat))
    (reads_u16 (UInt16.ofNat (word.toNat % 0x10000))).bind_pure
  have hword : UInt32.ofNat ((UInt16.ofNat (word.toNat / 0x10000)).toNat * 0x10000 +
      (UInt16.ofNat (word.toNat % 0x10000)).toNat) = word := by
    have := word.toNat_lt
    apply UInt32.toNat_inj.mp
    simp only [UInt16.toNat_ofNat', UInt32.toNat_ofNat']
    omega
  rw [hword, ← be32_eq_append] at h
  exact h

/-! ### Several values -/

def take (count : Nat) : Reader (List UInt8) := fun bytes =>
  if count ≤ bytes.length then some (bytes.take count, bytes.drop count) else none

def many (reader : Reader α) : Nat → Reader (List α)
  | 0 => return []
  | count + 1 => do
    let a ← reader
    return a :: (← many reader count)

/-- Reads values up to the last byte. The number bounds how many there may be. -/
def exhaust (reader : Reader α) : Nat → List UInt8 → Option (List α)
  | _, [] => some []
  | 0, _ => none
  | bound + 1, bytes => do
    let (a, rest) ← reader bytes
    return a :: (← exhaust reader bound rest)

def whole (reader : Reader α) (bytes : List UInt8) : Option α :=
  match reader bytes with
  | some (a, []) => some a
  | _ => none

theorem reads_take (bytes : List UInt8) : Reads (take bytes.length) bytes bytes := by
  intro rest
  simp [take]

theorem exhaust_flatMap {reader : Reader α} {encode : α → List UInt8} {items : List α} {bound : Nat}
    (h : ∀ a ∈ items, Reads reader (encode a) a) (hne : ∀ a ∈ items, encode a ≠ [])
    (hbound : (items.flatMap encode).length ≤ bound) :
    exhaust reader bound (items.flatMap encode) = some items := by
  induction items generalizing bound with
  | nil => simp [exhaust]
  | cons a rest ih =>
    rw [List.forall_mem_cons] at h hne
    rw [List.flatMap_cons, List.length_append] at hbound
    have hpos := List.length_pos_iff.mpr hne.1
    obtain ⟨bound, rfl⟩ : ∃ fewer, bound = fewer + 1 := ⟨bound - 1, by omega⟩
    rw [List.flatMap_cons, exhaust, h.1]
    · have hrest : (rest.flatMap encode).length ≤ bound := by omega
      simp [ih h.2 hne.2 hrest]
    · simp [hne.1]

/-- Where one value ends is known from its bytes, so values that begin others begin their bytes and
the other way round. -/
theorem isPrefix_flatMap_iff {reader : Reader β} {encode : α → List UInt8} {view : α → β}
    (h : ∀ a, Reads reader (encode a) (view a)) (hview : ∀ a b, view a = view b → a = b)
    (hne : ∀ a, encode a ≠ []) {items others : List α} :
    items.flatMap encode <+: others.flatMap encode ↔ items <+: others := by
  constructor
  · intro hbegins
    induction items generalizing others with
    | nil => exact List.nil_prefix
    | cons a rest ih =>
      obtain ⟨more, hmore⟩ := hbegins
      cases others with
      | nil => simp [hne a] at hmore
      | cons b others =>
        rw [List.flatMap_cons, List.flatMap_cons, List.append_assoc] at hmore
        have hread := h a (rest.flatMap encode ++ more)
        rw [hmore, h b] at hread
        simp only [Option.some.injEq, Prod.mk.injEq] at hread
        obtain rfl := hview b a hread.1
        exact List.cons_prefix_cons.mpr ⟨rfl, ih ⟨more, hread.2.symm⟩⟩
  · rintro ⟨more, rfl⟩
    rw [List.flatMap_append]
    exact List.prefix_append _ _

theorem whole_of_reads {reader : Reader α} {bytes : List UInt8} {a : α} (h : Reads reader bytes a) :
    whole reader bytes = some a := by
  have hbytes := h []
  rw [List.append_nil] at hbytes
  rw [whole, hbytes]

/-! ### What is read -/

variable {P : α → List UInt8 → Prop}

/-- Nothing but pieces that stand for a value are read as it. -/
def Finds (reader : Reader α) (P : α → List UInt8 → Prop) : Prop :=
  ∀ bytes a rest, reader bytes = some (a, rest) → ∃ piece, P a piece ∧ bytes = piece ++ rest

theorem finds_pure {a : α} (h : P a []) : Finds (pure a) P := by
  intro bytes b rest hread
  cases hread
  exact ⟨[], h, rfl⟩

theorem finds_failure : Finds failure P := by
  intro bytes a rest hread
  cases hread

theorem Finds.bind {x : Reader α} {f : α → Reader β} {Q : β → List UInt8 → Prop}
    (hx : Finds x P)
    (hf : ∀ a first, P a first → Finds (f a) fun b second => Q b (first ++ second)) :
    Finds (x >>= f) Q := by
  intro bytes b rest hread
  obtain ⟨⟨a, mid⟩, ha, hb⟩ := Option.bind_eq_some_iff.mp hread
  obtain ⟨first, hfirst, rfl⟩ := hx bytes a mid ha
  obtain ⟨second, hsecond, rfl⟩ := hf a first hfirst mid b rest hb
  exact ⟨first ++ second, hsecond, (List.append_assoc _ _ _).symm⟩

theorem finds_u8 : Finds u8 fun byte piece => piece = [byte] := by
  intro bytes byte rest hread
  cases bytes with
  | nil => cases hread
  | cons first others =>
    cases hread
    exact ⟨[byte], rfl, rfl⟩

theorem be16_ofNat (high low : UInt8) :
    Bytes.be16 (UInt16.ofNat (high.toNat * 0x100 + low.toNat)) = [high, low] := by
  have hhigh := high.toNat_lt
  have hlow := low.toNat_lt
  have hword : (UInt16.ofNat (high.toNat * 0x100 + low.toNat)).toNat =
      high.toNat * 0x100 + low.toNat := by
    rw [UInt16.toNat_ofNat']
    omega
  have hdiv : (high.toNat * 0x100 + low.toNat) / 0x100 = high.toNat := by omega
  have hmod : (high.toNat * 0x100 + low.toNat) % 0x100 = low.toNat := by omega
  rw [Bytes.be16, hword, hdiv, hmod, UInt8.ofNat_toNat, UInt8.ofNat_toNat]

theorem finds_u16 : Finds u16 fun word piece => piece = Bytes.be16 word := by
  refine finds_u8.bind fun high first hfirst => ?_
  refine finds_u8.bind fun low second hsecond => ?_
  refine finds_pure ?_
  subst hfirst hsecond
  exact (be16_ofNat high low).symm

end Reader

end Classfile
