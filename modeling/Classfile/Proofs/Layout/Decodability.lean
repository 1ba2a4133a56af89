import Classfile.Proofs.Errors
import Classfile.Proofs.Layout.Reading
import Classfile.Proofs.Pool.Reachable

/-!
# Decodability of class files

A class file and the body of an attribute can be written unless one of their lengths does not fit
its field. What is written is read back to the last byte, so two values are never written in the
same way.
-/

namespace Classfile

open Reader

namespace Emission

variable {α : Type} {e : Emission} {P Q : Prop}

/-! ### When the writing stops -/

/-- The writing stops if and only if the condition holds, and a length is the reason. -/
structure Overflows (e : Emission) (P : Prop) : Prop where
  stops_iff : e.stop ≠ none ↔ P
  error : StopsWith (fun error => ∃ what length, error = .lengthOverflow what length) e

theorem Overflows.congr (h : Overflows e P) (hPQ : P ↔ Q) : Overflows e Q :=
  ⟨h.stops_iff.trans hPQ, h.error⟩

theorem overflows_bytes (chunk : List UInt8) : Overflows (bytes chunk) False :=
  ⟨by simp [bytes], stopsWith_bytes chunk⟩

theorem Overflows.append {a b : Emission} (ha : Overflows a P) (hb : Overflows b Q) :
    Overflows (a ++ b) (P ∨ Q) := by
  refine ⟨?_, ha.error.append hb.error⟩
  rw [Ne, stop_append, Decidable.not_and_iff_not_or_not]
  exact or_congr ha.stops_iff hb.stops_iff

/-- What stands before cannot stop the writing. -/
theorem Overflows.after {a b : Emission} (hb : Overflows b P) (ha : Overflows a False) :
    Overflows (a ++ b) P :=
  (ha.append hb).congr (by simp)

theorem Overflows.before {a b : Emission} (ha : Overflows a P) (hb : Overflows b False) :
    Overflows (a ++ b) P :=
  (ha.append hb).congr (by simp)

/-- A length is checked before what follows is written. -/
theorem overflows_check (what : String) (length : Nat) {fit : Except Error α} {next : α → Emission}
    (hfails : ∀ error, fit = .error error → error = .lengthOverflow what length)
    (hfit : (∃ a, fit = .ok a) ↔ ¬ P) (hnext : ∀ a, fit = .ok a → Overflows (next a) Q) :
    Overflows (check fit next) (P ∨ Q) := by
  cases fit with
  | ok a =>
    have hP : ¬ P := hfit.mp ⟨a, rfl⟩
    exact (hnext a rfl).congr (or_iff_right hP).symm
  | error error =>
    have hP : P := by
      by_contra hP
      obtain ⟨a, ha⟩ := hfit.mpr hP
      cases ha
    refine ⟨by simp [check, fail, hP], fun stop hstop => ?_⟩
    cases hstop
    exact ⟨what, length, hfails error rfl⟩

theorem overflows_check16 {next : UInt16 → Emission} {what : String} {length : Nat}
    (h : ∀ word, Overflows (next word) Q) :
    Overflows (check (fitLength16 what length) next) (0xFFFF < length ∨ Q) := by
  refine overflows_check what length ?_ ?_ fun word _ => h word
  · intro error herror
    unfold fitLength16 at herror
    split at herror
    · cases herror
    · exact (Except.error.inj herror).symm
  · simp [fitLength16_eq_ok_iff, Nat.lt_succ_iff]

theorem overflows_check32 {next : UInt32 → Emission} {what : String} {length : Nat}
    (h : ∀ word, Overflows (next word) Q) :
    Overflows (check (fitLength32 what length) next) (0xFFFFFFFF < length ∨ Q) := by
  refine overflows_check what length ?_ ?_ fun word _ => h word
  · intro error herror
    unfold fitLength32 at herror
    split at herror
    · cases herror
    · exact (Except.error.inj herror).symm
  · simp [fitLength32_eq_ok_iff, Nat.lt_succ_iff]

theorem overflows_concat [Emit α] {P : α → Prop} (h : ∀ a, Overflows (emit a) (P a))
    (items : List α) : Overflows (concat (items.map emit)) (∃ a ∈ items, P a) := by
  induction items with
  | nil => exact ⟨by simp [concat, nothing], stopsWith_concat (by simp)⟩
  | cons a rest ih => exact ((h a).append ih).congr (by simp)

theorem overflows_list [Emit α] {P : α → Prop} (h : ∀ a, Overflows (emit a) (P a))
    (items : List α) : Overflows (emit items) (0xFFFF < items.length ∨ ∃ a ∈ items, P a) :=
  overflows_check16 fun _ => (overflows_concat h items).after (overflows_bytes _)

/-- A list of values that can always be written is stopped by its length only. -/
theorem overflows_plain [Emit α] (h : ∀ a : α, Overflows (emit a) False) (items : List α) :
    Overflows (emit items) (0xFFFF < items.length) :=
  (overflows_list h items).congr (by simp)

/-! ### What is written can be read -/

/-- The value is written unless it is too large, and all of it is found again at the front of any
bytes that start with what was written. -/
structure Decodable (reader : Reader α) (e : Emission) (tooLarge : Prop) (a : α) : Prop where
  fails_iff : (∃ error, e.toBytes = .error error) ↔ tooLarge
  error : ∀ error, e.toBytes = .error error → ∃ what length, error = .lengthOverflow what length
  reads : ¬ tooLarge → ∃ bytes, e.toBytes = .ok bytes ∧ Reads reader bytes a

theorem toBytes_eq_ok_iff {bytes : List UInt8} :
    e.toBytes = .ok bytes ↔ e.stop = none ∧ e.written = bytes := by
  cases h : e.stop <;> simp [toBytes, h]

theorem exists_error_iff : (∃ error, e.toBytes = .error error) ↔ e.stop ≠ none := by
  cases h : e.stop <;> simp [toBytes, h]

theorem Overflows.decodable {reader : Reader α} {a : α} (h : Overflows e P)
    (hreader : Restores reader e a) : Decodable reader e P a where
  fails_iff := exists_error_iff.trans h.stops_iff
  error _ herror := h.error.toBytes herror
  reads hP := by
    have hstop : e.stop = none := Decidable.not_not.mp (mt h.stops_iff.mp hP)
    exact ⟨e.written, toBytes_eq_ok_iff.mpr ⟨hstop, rfl⟩, hreader hstop⟩

/-- The same bytes are not read as two values. -/
theorem Restores.eq {reader : Reader α} {e' : Emission} {a b : α} (ha : Restores reader e a)
    (hb : Restores reader e' b) {bytes : List UInt8} (he : e.toBytes = .ok bytes)
    (he' : e'.toBytes = .ok bytes) : a = b := by
  obtain ⟨hstop, hbytes⟩ := toBytes_eq_ok_iff.mp he
  obtain ⟨hstop', hbytes'⟩ := toBytes_eq_ok_iff.mp he'
  have hfirst := whole_of_reads (ha hstop)
  have hsecond := whole_of_reads (hb hstop')
  rw [hbytes] at hfirst
  rw [hbytes', hfirst] at hsecond
  exact Option.some.inj hsecond

end Emission

/-! ### What is too large -/

def Constant.Oversized : Constant → Prop
  | utf8 text => 0xFFFF < (Text.Modified.encode text).length
  | _ => False

instance : DecidablePred Constant.Oversized
  | .utf8 text => inferInstanceAs (Decidable (0xFFFF < (Text.Modified.encode text).length))
  | .integer _ | .type _ | .string _ | .fieldRef _ _ | .methodRef _ _ | .nameAndType _ _ =>
    inferInstanceAs (Decidable False)

namespace Layout

open Emission

variable {kind : IndexKind} {owner : FlagOwner}

/-- There are too many attributes, or one of them is too long. -/
def OversizedList (attributes : List Attribute) : Prop :=
  0xFFFF < attributes.length ∨ ∃ a ∈ attributes, 0xFFFFFFFF < a.info.length

def ClassFile.Oversized (file : ClassFile) : Prop :=
  (∃ constant ∈ file.pool.toList, constant.Oversized) ∨
  0xFFFF < file.interfaces.length ∨
  (0xFFFF < file.fields.length ∨ ∃ field ∈ file.fields, OversizedList field.attributes) ∨
  (0xFFFF < file.methods.length ∨ ∃ method ∈ file.methods, OversizedList method.attributes) ∨
  OversizedList file.attributes

def AttributeBody.Oversized : AttributeBody → Prop
  | code c => 0xFFFF < c.code.bytes.length ∨ OversizedList c.attributes
  | innerClasses entries => 0xFFFF < entries.length
  | stackMapTable frames => 0xFFFF < frames.length ∨
    ∃ frame ∈ frames, 0xFFFF < frame.locals.length ∨ 0xFFFF < frame.stack.length

instance (attributes : List Attribute) : Decidable (OversizedList attributes) :=
  inferInstanceAs (Decidable (_ ∨ _))

instance (file : ClassFile) : Decidable file.Oversized := inferInstanceAs (Decidable (_ ∨ _))

instance : DecidablePred AttributeBody.Oversized
  | .code _ => inferInstanceAs (Decidable (_ ∨ _))
  | .innerClasses _ => inferInstanceAs (Decidable (_ < _))
  | .stackMapTable _ => inferInstanceAs (Decidable (_ ∨ _))

theorem overflows_constant (constant : Constant) :
    Overflows (emit constant) constant.Oversized := by
  have hword : ∀ word : UInt16, Overflows (emit word) False := fun _ => overflows_bytes _
  cases constant with
  | utf8 text =>
    refine Overflows.after ?_ (overflows_bytes _)
    refine (overflows_check16 (Q := False) fun word => ?_).congr (by simp [Constant.Oversized])
    exact (overflows_bytes _).after (hword word)
  | integer value => exact (overflows_bytes _).after (overflows_bytes _)
  | type name => exact (hword name.val).after (overflows_bytes _)
  | string text => exact (hword text.val).after (overflows_bytes _)
  | fieldRef owner member =>
    exact ((hword member.val).after (hword owner.val)).after (overflows_bytes _)
  | methodRef owner member =>
    exact ((hword member.val).after (hword owner.val)).after (overflows_bytes _)
  | nameAndType name descriptor =>
    exact ((hword descriptor.val).after (hword name.val)).after (overflows_bytes _)

theorem overflows_index (index : Index kind) : Overflows (emit index) False := overflows_bytes _

theorem overflows_flags (flags : Flags owner) : Overflows (emit flags) False := overflows_bytes _

theorem overflows_attribute (a : Attribute) :
    Overflows (emit a) (0xFFFFFFFF < a.info.length) := by
  refine Overflows.after ?_ (overflows_index a.name)
  refine (overflows_check32 (Q := False) fun word => ?_).congr (by simp)
  exact (overflows_bytes _).after (overflows_bytes _)

theorem overflows_attributes (attributes : List Attribute) :
    Overflows (emit attributes) (OversizedList attributes) :=
  overflows_list overflows_attribute attributes

/-- Fields and methods have the same parts. -/
theorem overflows_member (flags : Flags owner) (name descriptor : Index .utf8)
    (attributes : List Attribute) :
    Overflows (emit flags ++ emit name ++ emit descriptor ++ emit attributes)
      (OversizedList attributes) :=
  (overflows_attributes _).after
    (((overflows_flags _).before (overflows_index _)).before (overflows_index _))

theorem overflows_field (field : Field) : Overflows (emit field) (OversizedList field.attributes) :=
  overflows_member field.flags field.name field.descriptor field.attributes

theorem overflows_method (method : Method) :
    Overflows (emit method) (OversizedList method.attributes) :=
  overflows_member method.flags method.name method.descriptor method.attributes

/-- The count of a reachable pool always fits. -/
theorem overflows_classFile {file : ClassFile} (h : file.pool.Reachable) :
    Overflows (emit file) file.Oversized := by
  obtain ⟨count, hcount⟩ : ∃ count, file.pool.count = .ok count :=
    ⟨_, fitValue_eq_ok_iff.mpr ⟨Nat.succ_lt_succ (Nat.lt_succ_of_le h.bounded), rfl⟩⟩
  change Overflows (emit magic ++ (emit file.version ++ check file.pool.count _)) _
  rw [hcount]
  refine Overflows.after (Overflows.after (Overflows.after ?_ (overflows_bytes _)) ?_)
    (overflows_bytes _)
  · refine (overflows_concat overflows_constant _).append ?_
    refine Overflows.after (Overflows.after (Overflows.after ?_ (overflows_index _))
      (overflows_index _)) (overflows_flags _)
    exact (overflows_plain overflows_index _).append <|
      (overflows_list overflows_field _).append <|
      (overflows_list overflows_method _).append (overflows_attributes _)
  · exact (overflows_bytes _).after (overflows_bytes _)

theorem overflows_verificationType (type : VerificationType) : Overflows (emit type) False := by
  cases type with
  | integer => exact overflows_bytes _
  | object index => exact (overflows_index index).after (overflows_bytes _)

theorem overflows_frame (frame : StackMapFrame) :
    Overflows (emit frame) (0xFFFF < frame.locals.length ∨ 0xFFFF < frame.stack.length) :=
  (((overflows_plain overflows_verificationType _).after
    ((overflows_bytes _).before (overflows_bytes _))).append
      (overflows_plain overflows_verificationType _))

theorem overflows_innerClass (entry : InnerClass) : Overflows (emit entry) False :=
  (((overflows_index _).before (overflows_index _)).before (overflows_index _)).before
    (overflows_flags _)

theorem overflows_bytecode (code : Bytecode) :
    Overflows (emit code) (0xFFFF < code.bytes.length) :=
  (overflows_check16 (Q := False) fun word => (overflows_bytes _).after (overflows_bytes _)).congr
    (by simp)

theorem overflows_code (code : Code) :
    Overflows (emit code) (0xFFFF < code.code.bytes.length ∨ OversizedList code.attributes) := by
  refine Overflows.append (Overflows.before ?_ (overflows_bytes _)) (overflows_attributes _)
  exact (overflows_bytecode code.code).after ((overflows_bytes _).after (overflows_bytes _))

theorem overflows_body (body : AttributeBody) : Overflows (emit body) body.Oversized := by
  cases body with
  | code code => exact overflows_code code
  | innerClasses entries => exact overflows_plain overflows_innerClass entries
  | stackMapTable frames => exact overflows_list overflows_frame frames

/-! ### Reading back -/

/-- Reads the body of an attribute of a known kind. -/
def readBody : AttributeKind → Reader AttributeBody
  | .code => return .code (← readCode)
  | .innerClasses => return .innerClasses (← readList readInnerClass)
  | .stackMapTable => return .stackMapTable (← readList readStackMapFrame)

theorem restores_readBody (body : AttributeBody) :
    Restores (readBody body.kind) (emit body) body := by
  cases body with
  | code code => exact (restores_readCode code).bind_pure
  | innerClasses entries => exact (restores_list restores_readInnerClass entries).bind_pure
  | stackMapTable frames => exact (restores_list restores_readStackMapFrame frames).bind_pure

theorem eq_of_image {a b : ClassFile} (ha : a.pool.Reachable) (hb : b.pool.Reachable)
    (h : a.image = b.image) : a = b := by
  obtain ⟨version, pool, flags, this, parent, interfaces, fields, methods, attributes⟩ := a
  obtain ⟨version', pool', flags', this', parent', interfaces', fields', methods', attributes'⟩ := b
  obtain ⟨rfl, hconstants, rfl, rfl, rfl, rfl, rfl, rfl, rfl⟩ := Image.mk.inj h
  obtain rfl := ha.eq hb hconstants
  rfl

/-- A class file and the body of an attribute are written exactly when no length is too large. They
are then read back with nothing left over, so no two of them have the same bytes. -/
theorem layout_decodable :
    (∀ file : ClassFile, file.pool.Reachable →
      Decodable readImage (emit file) file.Oversized file.image) ∧
    (∀ a b : ClassFile, a.pool.Reachable → b.pool.Reachable → ∀ bytes,
      (emit a).toBytes = .ok bytes → (emit b).toBytes = .ok bytes → a = b) ∧
    (∀ body : AttributeBody, Decodable (readBody body.kind) (emit body) body.Oversized body) ∧
    ∀ a b : AttributeBody, a.kind = b.kind → ∀ bytes,
      (emit a).toBytes = .ok bytes → (emit b).toBytes = .ok bytes → a = b := by
  refine ⟨?_, ?_, ?_, ?_⟩
  · intro file hfile
    exact (overflows_classFile hfile).decodable (restores_readImage file)
  · intro a b ha hb bytes hbytes hbytes'
    apply eq_of_image ha hb
    exact (restores_readImage a).eq (restores_readImage b) hbytes hbytes'
  · intro body
    exact (overflows_body body).decodable (restores_readBody body)
  · intro a b hkind bytes hbytes hbytes'
    exact (restores_readBody a).eq (hkind ▸ restores_readBody b) hbytes hbytes'

/-- A class file with an attribute at every place that can have one. -/
def fullFile : ClassFile where
  version := ⟨58, 0⟩
  pool := Run.final Pool.Addition.run
    [.type "Größe", .type "java/lang/Object", .utf8 "x", .utf8 "I", .integer (-1),
      .methodRef "Größe" "f" "()V", .string "I"] .empty
  flags := .truncate .type 0x0021
  this := ⟨2⟩
  parent := ⟨4⟩
  interfaces := [⟨4⟩, ⟨2⟩]
  fields := [⟨.truncate .field 0x0002, ⟨5⟩, ⟨6⟩, [⟨⟨5⟩, [0, 255]⟩]⟩]
  methods :=
    [⟨.truncate .method 0x0001, ⟨8⟩, ⟨9⟩, []⟩, ⟨.truncate .method 0, ⟨5⟩, ⟨9⟩, [⟨⟨6⟩, []⟩]⟩]
  attributes := [⟨⟨1⟩, [1, 2, 3]⟩, ⟨⟨1⟩, []⟩]

def crowdedFile : ClassFile := { fullFile with interfaces := .replicate 65536 ⟨4⟩ }

def wideFrames : AttributeBody := .stackMapTable [⟨7, [.integer, .object ⟨2⟩], [.object ⟨4⟩]⟩]

/-- Interfaces are told from the fields that follow them, and one more than can be counted is too
many. -/
theorem layout_decodable_fullFile :
    (fullFile.pool.Reachable ∧ ¬ fullFile.Oversized ∧
      (∃ bytes, (emit fullFile).toBytes = .ok bytes ∧ Reads readImage bytes fullFile.image) ∧
      (emit fullFile).toBytes ≠ (emit { fullFile with interfaces := [] }).toBytes) ∧
    (∃ error, (emit crowdedFile).toBytes = .error error) ∧
    ∃ bytes, (emit wideFrames).toBytes = .ok bytes ∧
      Reads (readBody .stackMapTable) bytes wideFrames := by
  have hpool : fullFile.pool.Reachable := ⟨_, rfl⟩
  have hfits : ¬ fullFile.Oversized := by decide
  have hcrowded : 0xFFFF < crowdedFile.interfaces.length := by
    rw [crowdedFile, List.length_replicate]
    decide
  obtain ⟨bytes, hbytes, hreads⟩ := (layout_decodable.1 fullFile hpool).reads hfits
  refine ⟨⟨hpool, hfits, ⟨bytes, hbytes, hreads⟩, ?_⟩, ?_, ?_⟩
  · intro hsame
    have heq := layout_decodable.2.1 fullFile { fullFile with interfaces := [] } hpool hpool bytes
      hbytes (hsame.symm.trans hbytes)
    cases congrArg ClassFile.interfaces heq
  · exact (layout_decodable.1 crowdedFile hpool).fails_iff.mpr (.inr (.inl hcrowded))
  · exact (layout_decodable.2.2.1 wideFrames).reads (by decide)

end Layout

end Classfile
