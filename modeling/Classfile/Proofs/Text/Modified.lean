import Classfile.Proofs.Reader
import Classfile.Text.Modified

/-!
# Decoding of modified UTF-8

A character is read from its UTF-16 units, and a unit from the one to three bytes whose leading bits
tell how many they are. Decoding gives back every text that was encoded. The bytes of a unit are a
lead and its trails, which are never confused, so the bytes tell where each unit ends.
-/

namespace Classfile.Text.Modified

open Reader

/-- The six bits in a byte that continues a unit. -/
def readTrail : Reader Nat := do
  let byte ← u8
  if 0x80 ≤ byte.toNat ∧ byte.toNat < 0xC0 then return byte.toNat - 0x80 else failure

def readUnit : Reader UInt16 := do
  let lead ← u8
  if 1 ≤ lead.toNat ∧ lead.toNat < 0x80 then return UInt16.ofNat lead.toNat
  else if 0xC0 ≤ lead.toNat ∧ lead.toNat < 0xE0 then
    return UInt16.ofNat ((lead.toNat - 0xC0) * 0x40 + (← readTrail))
  else if 0xE0 ≤ lead.toNat ∧ lead.toNat < 0xF0 then
    let middle ← readTrail
    return UInt16.ofNat ((lead.toNat - 0xE0) * 0x1000 + middle * 0x40 + (← readTrail))
  else failure

/-- A surrogate stands only in a pair. -/
def readChar : Reader Char := do
  let unit ← readUnit
  if 0xD800 ≤ unit.toNat ∧ unit.toNat < 0xDC00 then
    let low ← readUnit
    if 0xDC00 ≤ low.toNat ∧ low.toNat < 0xE000 then
      return Char.ofNat (0x10000 + (unit.toNat - 0xD800) * 0x400 + (low.toNat - 0xDC00))
    else failure
  else if 0xDC00 ≤ unit.toNat ∧ unit.toNat < 0xE000 then failure
  else return Char.ofNat unit.toNat

def decode (bytes : List UInt8) : Option String :=
  (exhaust readChar bytes.length bytes).map String.ofList

theorem reads_readTrail {n : Nat} (h : n < 0x40) : Reads readTrail [UInt8.ofNat (0x80 + n)] n := by
  have hbyte : (UInt8.ofNat (0x80 + n)).toNat = 0x80 + n := by
    rw [UInt8.toNat_ofNat']
    omega
  refine (reads_u8 _).bind_nil ?_
  rw [hbyte, if_pos (by omega), Nat.add_sub_cancel_left]
  exact reads_pure n

theorem reads_readUnit (unit : UInt16) : Reads readUnit (encodeUnit unit) unit := by
  have hlt := unit.toNat_lt
  unfold encodeUnit
  dsimp only
  split
  · next h =>
    have hlead : (UInt8.ofNat unit.toNat).toNat = unit.toNat := by
      rw [UInt8.toNat_ofNat']
      omega
    refine (reads_u8 _).bind_nil ?_
    rw [hlead, if_pos (by omega), UInt16.ofNat_toNat]
    exact reads_pure unit
  · split
    · next h =>
      have hlead : (UInt8.ofNat (0xC0 + unit.toNat / 0x40)).toNat = 0xC0 + unit.toNat / 0x40 := by
        rw [UInt8.toNat_ofNat']
        omega
      have htrail := (reads_readTrail (n := unit.toNat % 0x40) (by omega)).bind_pure
        (f := fun trail => UInt16.ofNat ((0xC0 + unit.toNat / 0x40 - 0xC0) * 0x40 + trail))
      refine (reads_u8 _).bind (f := fun lead => _) ?_
      rw [hlead, if_neg (by omega), if_pos (by omega)]
      have hunit : (0xC0 + unit.toNat / 0x40 - 0xC0) * 0x40 + unit.toNat % 0x40 = unit.toNat := by
        omega
      rwa [hunit, UInt16.ofNat_toNat] at htrail
    · next h =>
      have hlead : (UInt8.ofNat (0xE0 + unit.toNat / 0x1000)).toNat =
          0xE0 + unit.toNat / 0x1000 := by
        rw [UInt8.toNat_ofNat']
        omega
      have htrails := (reads_readTrail (n := unit.toNat / 0x40 % 0x40) (by omega)).bind
        (f := fun middle => do
          return UInt16.ofNat
            ((0xE0 + unit.toNat / 0x1000 - 0xE0) * 0x1000 + middle * 0x40 + (← readTrail)))
        (reads_readTrail (n := unit.toNat % 0x40) (by omega)).bind_pure
      refine (reads_u8 _).bind (f := fun lead => _) ?_
      rw [hlead, if_neg (by omega), if_neg (by omega), if_pos (by omega)]
      have hunit : (0xE0 + unit.toNat / 0x1000 - 0xE0) * 0x1000 + unit.toNat / 0x40 % 0x40 * 0x40 +
          unit.toNat % 0x40 = unit.toNat := by
        omega
      rwa [hunit, UInt16.ofNat_toNat] at htrails

theorem toNat_lt_surrogates_or (c : Char) :
    c.toNat < 0xD800 ∨ 0xE000 ≤ c.toNat ∧ c.toNat < 0x110000 := by
  have h := c.valid
  simp only [UInt32.isValidChar, Nat.isValidChar] at h
  change c.val.toNat < _ ∨ _ ≤ c.val.toNat ∧ c.val.toNat < _
  omega

theorem reads_readChar (c : Char) : Reads readChar ((units c).flatMap encodeUnit) c := by
  have hvalid := toNat_lt_surrogates_or c
  unfold units
  dsimp only
  split
  · next h =>
    have hunit : (UInt16.ofNat c.toNat).toNat = c.toNat := by
      rw [UInt16.toNat_ofNat']
      omega
    rw [List.flatMap_singleton]
    refine (reads_readUnit _).bind_nil ?_
    rw [hunit, if_neg (by omega), if_neg (by omega), Char.ofNat_toNat]
    exact reads_pure c
  · next h =>
    have hhigh : (UInt16.ofNat (0xD800 + (c.toNat - 0x10000) / 0x400)).toNat =
        0xD800 + (c.toNat - 0x10000) / 0x400 := by
      rw [UInt16.toNat_ofNat']
      omega
    have hlow : (UInt16.ofNat (0xDC00 + (c.toNat - 0x10000) % 0x400)).toNat =
        0xDC00 + (c.toNat - 0x10000) % 0x400 := by
      rw [UInt16.toNat_ofNat']
      omega
    rw [List.flatMap_cons, List.flatMap_singleton]
    refine (reads_readUnit _).bind ?_
    rw [hhigh, if_pos (by omega)]
    refine (reads_readUnit _).bind_nil ?_
    rw [hlow, if_pos (by omega)]
    have hsum : 0x10000 + (0xD800 + (c.toNat - 0x10000) / 0x400 - 0xD800) * 0x400 +
        (0xDC00 + (c.toNat - 0x10000) % 0x400 - 0xDC00) = c.toNat := by
      omega
    rw [hsum, Char.ofNat_toNat]
    exact reads_pure c

theorem encodeUnit_ne_nil (unit : UInt16) : encodeUnit unit ≠ [] := by
  unfold encodeUnit
  dsimp only
  split
  · simp
  · split <;> simp

theorem encodeChar_ne_nil (c : Char) : (units c).flatMap encodeUnit ≠ [] := by
  unfold units
  dsimp only
  split <;> simp [encodeUnit_ne_nil]

theorem decode_encode (text : String) : decode (encode text) = some text := by
  unfold decode encode
  rw [exhaust_flatMap (fun c _ => reads_readChar c) (fun c _ => encodeChar_ne_nil c)
    (Nat.le_refl _)]
  simp

/-! ### Units -/

/-- All UTF-16 units of a text. -/
def utf16 (text : String) : List UInt16 := text.toList.flatMap units

def decodeUnits (bytes : List UInt8) : Option (List UInt16) := exhaust readUnit bytes.length bytes

/-- Such a byte begins a unit. It is neither zero nor one of the bytes from 0xF0 on. -/
def IsLead (byte : UInt8) : Prop :=
  1 ≤ byte.toNat ∧ byte.toNat < 0x80 ∨ 0xC0 ≤ byte.toNat ∧ byte.toNat < 0xF0

/-- Such a byte continues a unit and begins none. -/
def IsTrail (byte : UInt8) : Prop := 0x80 ≤ byte.toNat ∧ byte.toNat < 0xC0

theorem encode_eq_flatMap (text : String) : encode text = (utf16 text).flatMap encodeUnit := by
  rw [encode, utf16, List.flatMap_assoc]

theorem decodeUnits_encode (text : String) : decodeUnits (encode text) = some (utf16 text) := by
  rw [decodeUnits, encode_eq_flatMap]
  exact exhaust_flatMap (fun unit _ => reads_readUnit unit) (fun unit _ => encodeUnit_ne_nil unit)
    (Nat.le_refl _)

theorem length_encodeUnit (unit : UInt16) : (encodeUnit unit).length =
    if 1 ≤ unit.toNat ∧ unit.toNat ≤ 0x7F then 1 else if unit.toNat ≤ 0x7FF then 2 else 3 := by
  unfold encodeUnit
  dsimp only
  split
  · rfl
  · split <;> rfl

theorem isTrail_ofNat {n : Nat} (h : n < 0x40) : IsTrail (UInt8.ofNat (0x80 + n)) := by
  rw [IsTrail, UInt8.toNat_ofNat']
  omega

/-- A unit is a lead followed by trails. -/
theorem encodeUnit_eq_cons (unit : UInt16) :
    ∃ lead trails, encodeUnit unit = lead :: trails ∧ IsLead lead ∧
      ∀ trail ∈ trails, IsTrail trail := by
  have hlt := unit.toNat_lt
  have hlow := isTrail_ofNat (n := unit.toNat % 0x40) (by omega)
  unfold encodeUnit
  dsimp only
  split
  · next h =>
    refine ⟨_, _, rfl, ?_, by simp⟩
    rw [IsLead, UInt8.toNat_ofNat']
    omega
  · split
    · next h =>
      refine ⟨_, _, rfl, ?_, List.forall_mem_singleton.mpr hlow⟩
      rw [IsLead, UInt8.toNat_ofNat']
      omega
    · next h =>
      have hmiddle := isTrail_ofNat (n := unit.toNat / 0x40 % 0x40) (by omega)
      refine ⟨_, _, rfl, ?_,
        List.forall_mem_cons.mpr ⟨hmiddle, List.forall_mem_singleton.mpr hlow⟩⟩
      rw [IsLead, UInt8.toNat_ofNat']
      omega

theorem isLead_or_isTrail {text : String} {byte : UInt8} (h : byte ∈ encode text) :
    IsLead byte ∨ IsTrail byte := by
  rw [encode_eq_flatMap, List.mem_flatMap] at h
  obtain ⟨unit, -, hbyte⟩ := h
  obtain ⟨lead, trails, hunit, hlead, htrails⟩ := encodeUnit_eq_cons unit
  rw [hunit, List.mem_cons] at hbyte
  obtain rfl | hbyte := hbyte
  · exact .inl hlead
  · exact .inr (htrails byte hbyte)

theorem encode_append (a b : String) : encode (a ++ b) = encode a ++ encode b := by
  rw [encode, String.toList_append, List.flatMap_append, encode, encode]

theorem isPrefix_encode_iff (a b : String) : encode a <+: encode b ↔ a.toList <+: b.toList :=
  isPrefix_flatMap_iff reads_readChar (fun _ _ h => h) encodeChar_ne_nil

/-- **Lossless texts.** Decoding gives back the units of an encoded text and the text itself. No
byte is zero or above 0xEF. The bytes are those of the units one after the other, and a unit has one
byte from 1 to 0x7F, two for zero and up to 0x7FF, and three above: a lead, and trails that no lead
is mistaken for. So the encoding of two texts in a row is made of theirs, one begins with another
exactly if the text does, and different texts are never encoded in the same way. -/
theorem encode_lossless :
    (∀ text, decode (encode text) = some text) ∧
    (∀ text, decodeUnits (encode text) = some (utf16 text)) ∧
    (∀ text, ∀ byte ∈ encode text, byte ≠ 0 ∧ byte < 0xF0) ∧
    (∀ text, encode text = (utf16 text).flatMap encodeUnit) ∧
    (∀ unit, (encodeUnit unit).length =
      if 1 ≤ unit.toNat ∧ unit.toNat ≤ 0x7F then 1 else if unit.toNat ≤ 0x7FF then 2 else 3) ∧
    (∀ unit, ∃ lead trails, encodeUnit unit = lead :: trails ∧ IsLead lead ∧
      ∀ trail ∈ trails, IsTrail trail) ∧
    (∀ a b, encode (a ++ b) = encode a ++ encode b) ∧
    (∀ a b, encode a <+: encode b ↔ a.toList <+: b.toList) ∧
    ∀ a b, encode a = encode b ↔ a = b := by
  refine ⟨decode_encode, decodeUnits_encode, ?_, encode_eq_flatMap, length_encodeUnit,
    encodeUnit_eq_cons, encode_append, isPrefix_encode_iff, ?_⟩
  · intro text byte hbyte
    rw [Ne, ← UInt8.toNat_inj, UInt8.lt_iff_toNat_lt]
    obtain hlead | htrail := isLead_or_isTrail hbyte
    · unfold IsLead at hlead
      change ¬ _ = 0 ∧ _ < 0xF0
      omega
    · unfold IsTrail at htrail
      change ¬ _ = 0 ∧ _ < 0xF0
      omega
  · intro a b
    refine ⟨fun h => ?_, congrArg encode⟩
    have hdecode := decode_encode a
    rw [h, decode_encode] at hdecode
    exact (Option.some.inj hdecode).symm

def mixed : String := "a\x00é€😀"

/-- The zero character, letters of one to three bytes, and a character of two units. -/
theorem encode_lossless_mixed :
    encode mixed =
      [0x61, 0xC0, 0x80, 0xC3, 0xA9, 0xE2, 0x82, 0xAC, 0xED, 0xA0, 0xBD, 0xED, 0xB8, 0x80] ∧
    (0xED ∈ encode mixed ∧ (0xED : UInt8) ≠ 0 ∧ (0xED : UInt8) < 0xF0) ∧
    decodeUnits (encode mixed) = some [0x61, 0, 0xE9, 0x20AC, 0xD83D, 0xDE00] ∧
    encode mixed ≠ encode "a" := by
  have hbytes : encode mixed =
      [0x61, 0xC0, 0x80, 0xC3, 0xA9, 0xE2, 0x82, 0xAC, 0xED, 0xA0, 0xBD, 0xED, 0xB8, 0x80] := by
    decide +kernel
  have hmem : 0xED ∈ encode mixed := by
    rw [hbytes]
    decide
  obtain ⟨-, hunits, hbyte, -, -, -, -, -, hsame⟩ := encode_lossless
  refine ⟨hbytes, ⟨hmem, hbyte mixed 0xED hmem⟩, ?_, ?_⟩
  · rw [hunits]
    decide +kernel
  · rw [Ne, hsame]
    decide +kernel

end Classfile.Text.Modified
