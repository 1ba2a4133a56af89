import Classfile.Proofs.Instruction.Decoding

/-!
# Shortest forms

An instruction is encoded in the shortest of its forms. The forms are told apart by a decoder that
accepts nothing else: bytes are read as an instruction exactly if they start with one of its forms.
-/

namespace Classfile

open Reader

namespace Decoded

/-! ### What is read has the form of an instruction -/

variable {opcode : UInt8} {make : UInt16 → Instruction}

theorem mem_forms_of_bare {instruction : Instruction}
    (h : bare? opcode = some (.plain instruction)) : [opcode] ∈ instruction.forms := by
  unfold bare? at h
  split at h <;> cases h <;> decide

theorem jump_ne_plain {jump : Int16 → Decoded} (h : jump? opcode = some jump) (distance : Int16)
    (instruction : Instruction) : jump distance ≠ .plain instruction := by
  unfold jump? at h
  split at h <;> cases h <;> nofun

theorem mem_forms_of_pooled (h : pooled? opcode = some make) (index : UInt16) :
    opcode :: Bytes.be16 index ∈ (make index).forms := by
  unfold pooled? at h
  split at h <;> cases h <;> simp [Instruction.forms, Instruction.encode,
    Instruction.pieces, Dispatch.opcode]

theorem toNat_toUInt16_le (byte : UInt8) : byte.toUInt16.toNat ≤ 0xFF := by
  rw [UInt8.toNat_toUInt16]
  exact Nat.le_of_lt_succ byte.toNat_lt

theorem mem_localForms_byte (short : UInt8) (byte : UInt8) :
    [opcode, byte] ∈ localForms short opcode byte.toUInt16 :=
  mem_localForms.mpr (.inr (.inl ⟨toNat_toUInt16_le byte, by rw [UInt8.toUInt8_toUInt16]⟩))

theorem mem_localForms_wide (short : UInt8) (index : UInt16) :
    wide :: opcode :: Bytes.be16 index ∈ localForms short opcode index :=
  mem_localForms.mpr (.inr (.inr rfl))

theorem mem_forms_of_local (h : local? opcode = some make) (byte : UInt8) :
    [opcode, byte] ∈ (make byte.toUInt16).forms := by
  unfold local? at h
  split at h <;> cases h <;> exact mem_localForms_byte _ byte

theorem mem_forms_of_widened (h : local? opcode = some make) (index : UInt16) :
    wide :: opcode :: Bytes.be16 index ∈ (make index).forms := by
  unfold local? at h
  split at h <;> cases h <;> exact mem_localForms_wide _ index

theorem finds_readWidened :
    Finds readWidened fun instruction operands => wide :: operands ∈ instruction.forms := by
  refine finds_u8.bind fun opcode first hfirst => ?_
  refine finds_u16.bind fun index second hsecond => ?_
  subst hfirst hsecond
  split
  · next hopcode =>
    subst hopcode
    refine finds_u16.bind fun amount third hthird => finds_pure ?_
    subst hthird
    exact Instruction.mem_forms_increment.mpr (.inr (by simp))
  · split
    · next make hmake => exact finds_pure (mem_forms_of_widened hmake index)
    · exact finds_failure

theorem arrayCode_of_elementType {code : UInt8} {element : BaseType}
    (h : elementType? code = some element) : element.arrayCode = code := by
  unfold elementType? at h
  split at h <;> cases h <;> rfl

theorem toInt8_toInt16_small (amount : Int8) :
    -0x80 ≤ amount.toInt16.toInt ∧ amount.toInt16.toInt ≤ 0x7F := by
  rw [Int8.toInt_toInt16]
  have := amount.le_toInt
  have := amount.toInt_lt
  omega

theorem finds_readOther (opcode : UInt8) :
    Finds (readOther opcode) fun instruction operands =>
      opcode :: operands ∈ instruction.forms := by
  unfold readOther
  split
  · refine finds_u8.bind fun byte first hfirst => finds_pure ?_
    subst hfirst
    simp [Instruction.forms, Instruction.encode, Instruction.pieces]
  · refine finds_u16.bind fun word first hfirst => finds_pure ?_
    subst hfirst
    simp [Instruction.forms, Instruction.encode, Instruction.pieces]
  · refine finds_u8.bind fun byte first hfirst => finds_pure ?_
    subst hfirst
    refine Instruction.mem_forms_loadConstant.mpr (.inl ⟨toNat_toUInt16_le byte, ?_⟩)
    rw [UInt8.toUInt8_toUInt16]
    rfl
  · refine finds_u8.bind fun index first hfirst => ?_
    refine finds_u8.bind fun amount second hsecond => finds_pure ?_
    subst hfirst hsecond
    refine Instruction.mem_forms_increment.mpr
      (.inl ⟨⟨toNat_toUInt16_le index, toInt8_toInt16_small _⟩, ?_⟩)
    rw [UInt8.toUInt8_toUInt16, Int8.toInt8_toInt16, UInt8.toUInt8_toInt8]
    rfl
  · refine finds_u8.bind fun code first hfirst => ?_
    subst hfirst
    split
    · next element helement =>
      refine finds_pure (List.mem_singleton.mpr ?_)
      rw [Instruction.encode, Instruction.pieces, arrayCode_of_elementType helement]
      rfl
    · exact finds_failure
  · exact finds_readWidened
  · exact finds_failure

theorem finds_readOperands (opcode : UInt8) :
    Finds (readOperands opcode) fun decoded operands =>
      ∀ instruction, decoded = .plain instruction → opcode :: operands ∈ instruction.forms := by
  unfold readOperands
  -- One case for each table of opcodes, in the order in which they are consulted.
  split
  · next operation hbare =>
    refine finds_pure fun instruction hplain => ?_
    subst hplain
    exact mem_forms_of_bare hbare
  · next jump hjump _ =>
    refine finds_u16.bind fun word first _ => finds_pure fun instruction hplain => ?_
    exact absurd hplain (jump_ne_plain hjump _ instruction)
  · next make hpooled _ _ =>
    refine finds_u16.bind fun index first hfirst => finds_pure fun instruction hplain => ?_
    cases hplain
    subst hfirst
    rw [List.append_nil]
    exact mem_forms_of_pooled hpooled index
  · next make hlocal _ _ _ =>
    refine finds_u8.bind fun byte first hfirst => finds_pure fun instruction hplain => ?_
    cases hplain
    subst hfirst
    exact mem_forms_of_local hlocal byte
  · refine (finds_readOther opcode).bind fun found first hfirst =>
      finds_pure fun instruction hplain => ?_
    cases hplain
    rwa [List.append_nil]

theorem finds_read :
    Finds read fun decoded bytes =>
      ∀ instruction, decoded = .plain instruction → bytes ∈ instruction.forms := by
  refine finds_u8.bind fun opcode first hfirst => ?_
  subst hfirst
  exact finds_readOperands opcode

theorem reads_form {instruction : Instruction} {form : List UInt8}
    (hform : form ∈ instruction.forms) : Reads read form (.plain instruction) := by
  cases instruction with
  | load slot i => exact reads_load hform
  | store slot i => exact reads_store hform
  | loadConstant i => exact reads_loadConstant hform
  | increment i amount => exact reads_increment hform
  | _ =>
    obtain rfl := List.mem_singleton.mp hform
    exact reads_encode _

/-- The decoder tells the forms of an instruction from all other bytes. -/
theorem read_eq_plain_iff {bytes rest : List UInt8} {instruction : Instruction} :
    read bytes = some (.plain instruction, rest) ↔
      ∃ form ∈ instruction.forms, bytes = form ++ rest := by
  constructor
  · intro hread
    obtain ⟨form, hform, hbytes⟩ := finds_read bytes _ rest hread
    exact ⟨form, hform instruction rfl, hbytes⟩
  · rintro ⟨form, hform, rfl⟩
    exact reads_form hform rest

end Decoded

/-! ### The shortest form -/

theorem localForms_shortest {short long : UInt8} {i : UInt16} {form : List UInt8}
    (h : form ∈ localForms short long i) (hne : form ≠ (localPieces short long i).flatten) :
    (localPieces short long i).flatten.length < form.length := by
  obtain ⟨hfirst, rfl⟩ | ⟨hbyte, rfl⟩ | rfl := mem_localForms.mp h
  · rw [localPieces, if_pos hfirst] at hne
    exact absurd rfl hne
  · by_cases hfirst : i.toNat ≤ 3
    · rw [localPieces, if_pos hfirst]
      exact Nat.one_lt_two
    · rw [localPieces, if_neg hfirst, if_pos hbyte] at hne
      exact absurd rfl hne
  · unfold localPieces at hne ⊢
    split
    · simp
    · split
      · simp
      · simp_all

namespace Instruction

theorem forms_shortest {instruction : Instruction} {form : List UInt8}
    (h : form ∈ instruction.forms) (hne : form ≠ instruction.encode) :
    instruction.encode.length < form.length := by
  cases instruction with
  | load slot i => exact localForms_shortest h hne
  | store slot i => exact localForms_shortest h hne
  | loadConstant i =>
    rw [encode, pieces] at hne ⊢
    obtain ⟨hbyte, rfl⟩ | rfl := mem_forms_loadConstant.mp h
    · rw [if_pos hbyte] at hne
      exact absurd rfl hne
    · split
      · simp
      · simp_all
  | increment i amount =>
    rw [encode, pieces] at hne ⊢
    obtain ⟨hsmall, rfl⟩ | rfl := mem_forms_increment.mp h
    · rw [if_pos hsmall] at hne
      exact absurd rfl hne
    · split
      · simp
      · simp_all
  | _ => exact absurd (List.mem_singleton.mp h) hne

/-- An instruction is read back from its bytes whatever follows them, so they do not begin the bytes
of another one. The decoder accepts every form of an instruction and nothing else, and the bytes
are its only shortest form. -/
theorem encode_shortest (instruction : Instruction) :
    (∀ rest, Decoded.read (instruction.encode ++ rest) = some (.plain instruction, rest)) ∧
    (∀ other, instruction.encode <+: encode other → instruction = other) ∧
    (∀ bytes rest, Decoded.read bytes = some (.plain instruction, rest) ↔
      ∃ form ∈ instruction.forms, bytes = form ++ rest) ∧
    instruction.encode ∈ instruction.forms ∧
    ∀ form ∈ instruction.forms, form ≠ instruction.encode →
      instruction.encode.length < form.length := by
  have hreads := Decoded.reads_encode instruction
  refine ⟨hreads, ?_, fun _ _ => Decoded.read_eq_plain_iff, encode_mem_forms instruction,
    fun _ => forms_shortest⟩
  rintro other ⟨more, hmore⟩
  have hother := Decoded.reads_encode other []
  rw [List.append_nil, ← hmore, hreads] at hother
  cases hother
  rfl

/-- The largest operands that fit one byte each, which may stand in two bytes as well. -/
theorem encode_shortest_increment :
    (increment 255 (-128)).encode = [0x84, 0xFF, 0x80] ∧
    [0xC4, 0x84, 0x00, 0xFF, 0xFF, 0x80] ∈ (increment 255 (-128)).forms ∧
    (increment 255 (-128)).encode.length < [0xC4, 0x84, 0x00, 0xFF, 0xFF, 0x80].length ∧
    ¬ (increment 255 (-128)).encode <+: (increment 255 (-129)).encode := by
  obtain ⟨-, hbegins, -, -, hshortest⟩ := encode_shortest (increment 255 (-128))
  have hwide : [0xC4, 0x84, 0x00, 0xFF, 0xFF, 0x80] ∈ (increment 255 (-128)).forms := by decide
  refine ⟨by decide, hwide, hshortest _ hwide (by decide), ?_⟩
  intro hstarts
  have hsame := hbegins (increment 255 (-129)) hstarts
  revert hsame
  decide

end Instruction

end Classfile
