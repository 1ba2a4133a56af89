import Classfile.Proofs.Action
import Classfile.Proofs.Pool.Growth

/-!
# Errors of actions

Which errors an action may fail with is read from its steps, and which errors may stop an emission
from its parts. A stack map whose offsets do not descend fails for want of room in the pool, for a
type that has no form in a frame, or for a list that is too long.
-/

namespace Classfile

variable {σ α β : Type} {P : Error → Prop}

namespace Action

/-- The action fails with such errors only. -/
def FailsWith (P : Error → Prop) (x : Action σ α) : Prop := ∀ ⦃s e s'⦄, Fails x s e s' → P e

theorem FailsWith.bind {x : Action σ α} {f : α → Action σ β} (hx : FailsWith P x)
    (hf : ∀ a, FailsWith P (f a)) : FailsWith P (x >>= f) := by
  intro s e s' h
  obtain h | ⟨a, mid, -, h⟩ := fails_bind.mp h
  · exact hx h
  · exact hf a h

theorem failsWith_pure (a : α) : FailsWith P (pure a : Action σ α) :=
  fun _ _ _ h => absurd h fails_pure

theorem failsWith_report (event : Event) : FailsWith P (report event : Action σ Unit) :=
  fun _ _ _ h => absurd h fails_report

theorem failsWith_fail {e : Error} (h : P e) : FailsWith P (fail e : Action σ α) := by
  intro s e' s' hfails
  rwa [← (fails_fail.mp hfails).1]

theorem failsWith_ofExcept {x : Except Error α} (h : ∀ e, x = .error e → P e) :
    FailsWith P (ofExcept x : Action σ α) :=
  fun _ e _ hfails => h e (fails_ofExcept.mp hfails).1

theorem failsWith_traverse {f : α → Action σ β} (hf : ∀ a, FailsWith P (f a)) (items : List α) :
    FailsWith P (Action.traverse f items) := by
  induction items with
  | nil => exact failsWith_pure []
  | cons a rest ih =>
    have hcons := (hf a).bind fun b => ih.bind fun more => failsWith_pure (b :: more)
    intro s e s' h
    exact hcons ((alike_traverse_cons f a rest).fails_iff.mp h)

end Action

namespace Emission

/-- Such errors only may stop the writing. -/
def StopsWith (P : Error → Prop) (e : Emission) : Prop := ∀ error, e.stop = some error → P error

theorem stopsWith_bytes (chunk : List UInt8) : StopsWith P (bytes chunk) := by
  intro error h
  cases h

theorem StopsWith.append {a b : Emission} (ha : StopsWith P a) (hb : StopsWith P b) :
    StopsWith P (a ++ b) := by
  intro error h
  change (a.append b).stop = some error at h
  rw [Emission.append] at h
  split at h
  · exact hb error h
  · exact ha error h

theorem stopsWith_concat {parts : List Emission} (h : ∀ part ∈ parts, StopsWith P part) :
    StopsWith P (concat parts) := by
  induction parts with
  | nil =>
    intro error hstop
    cases hstop
  | cons part rest ih =>
    rw [List.forall_mem_cons] at h
    exact h.1.append (ih h.2)

/-- A list is stopped by its length or by one of its elements. -/
theorem stopsWith_list [Emit α] (hlength : ∀ length, P (.lengthOverflow "sequence" length))
    {items : List α} (h : ∀ a ∈ items, StopsWith P (emit a)) : StopsWith P (emit items) := by
  change StopsWith P (check (fitLength16 "sequence" items.length) _)
  unfold fitLength16
  split
  · refine (stopsWith_bytes _).append (stopsWith_concat fun part hpart => ?_)
    obtain ⟨a, ha, rfl⟩ := List.mem_map.mp hpart
    exact h a ha
  · intro error herror
    cases herror
    exact hlength _

theorem StopsWith.toBytes {e : Emission} (h : StopsWith P e) {error : Error}
    (herror : e.toBytes = .error error) : P error := by
  unfold Emission.toBytes at herror
  split at herror
  · cases herror
  · next hstop =>
    cases herror
    exact h error hstop

end Emission

open Classfile.Action Emission

namespace Pool

theorem failsWith_add (h : ∀ constant, P (.poolFull constant)) (constant : Constant) :
    FailsWith P (add constant) := by
  intro pool e pool' hfails
  obtain ⟨_, -, hadd⟩ | ⟨-, -, hadd, -⟩ | ⟨-, -, hadd⟩ := add_cases constant pool
  · rw [Fails, hadd] at hfails
    cases hfails.1
  · rw [Fails, hadd] at hfails
    cases hfails.1
  · rw [Fails, hadd] at hfails
    cases hfails.1
    exact h constant

section

variable (h : ∀ constant, P (.poolFull constant))
include h

theorem failsWith_addClass (name : String) : FailsWith P (addClass name) :=
  (failsWith_add h _).bind fun _ => failsWith_add h _

theorem failsWith_addNameAndType (name descriptor : String) :
    FailsWith P (addNameAndType name descriptor) :=
  (failsWith_add h _).bind fun _ => (failsWith_add h _).bind fun _ => failsWith_add h _

/-- An attribute fails for its name or for its bytes. -/
theorem failsWith_toAttribute {body : Layout.AttributeBody} (hbody : StopsWith P (emit body)) :
    FailsWith P body.toAttribute :=
  (failsWith_add h _).bind fun _ =>
    (failsWith_ofExcept fun _ => hbody.toBytes).bind fun _ => failsWith_pure _

theorem failsWith_run (hbody : ∀ body : Layout.AttributeBody, StopsWith P (emit body))
    (addition : Addition) : FailsWith P addition.run := by
  cases addition with
  | utf8 text => exact (failsWith_add h _).bind fun _ => failsWith_pure _
  | integer value => exact failsWith_add h _
  | type name => exact (failsWith_addClass h name).bind fun _ => failsWith_pure _
  | string text =>
    have hstring : FailsWith P (addString text) :=
      (failsWith_add h _).bind fun _ => failsWith_add h _
    exact hstring.bind fun _ => failsWith_pure _
  | nameAndType name descriptor =>
    exact (failsWith_addNameAndType h name descriptor).bind fun _ => failsWith_pure _
  | fieldRef owner name descriptor =>
    have hmember : FailsWith P (addFieldRef owner name descriptor) :=
      (failsWith_addClass h owner).bind fun _ =>
        (failsWith_addNameAndType h name descriptor).bind fun _ => failsWith_add h _
    exact hmember.bind fun _ => failsWith_pure _
  | methodRef owner name descriptor =>
    have hmember : FailsWith P (addMethodRef owner name descriptor) :=
      (failsWith_addClass h owner).bind fun _ =>
        (failsWith_addNameAndType h name descriptor).bind fun _ => failsWith_add h _
    exact hmember.bind fun _ => failsWith_pure _
  | attributeOf body => exact (failsWith_toAttribute h (hbody body)).bind fun _ => failsWith_pure _

end

end Pool

namespace StackMap

/-- What can go wrong with a stack map whose offsets do not descend. -/
def isObstacle : Error → Bool
  | .poolFull _ | .unsupportedVerificationType _ | .lengthOverflow _ _ => true
  | _ => false

theorem failsWith_verification (type : FieldType) :
    FailsWith (fun e => isObstacle e) type.verification := by
  unfold FieldType.verification
  split
  · split
    · exact failsWith_pure _
    · exact failsWith_fail rfl
  · exact (Pool.failsWith_addClass (fun _ => rfl) _).bind fun _ =>
      (failsWith_report _).bind fun _ => failsWith_pure _

theorem failsWith_compress {frames : List Frame} (h : firstDescent frames = none) :
    FailsWith (fun e => isObstacle e) (compress frames) := by
  rw [compress, h]
  exact failsWith_traverse (fun _ => (failsWith_report _).bind fun _ =>
    (failsWith_traverse failsWith_verification _).bind fun _ =>
      (failsWith_traverse failsWith_verification _).bind fun _ => failsWith_pure _) _

theorem stopsWith_verificationType (type : Layout.VerificationType) :
    StopsWith (fun e => isObstacle e) (emit type) := by
  cases type with
  | integer => exact stopsWith_bytes _
  | object index => exact (stopsWith_bytes _).append (stopsWith_bytes _)

theorem stopsWith_frame (frame : Layout.StackMapFrame) :
    StopsWith (fun e => isObstacle e) (emit frame) := by
  have htypes (types : List Layout.VerificationType) :
      StopsWith (fun e => isObstacle e) (emit types) :=
    stopsWith_list (fun _ => rfl) fun type _ => stopsWith_verificationType type
  exact (((stopsWith_bytes _).append (stopsWith_bytes _)).append (htypes _)).append (htypes _)

theorem failsWith_lower {frames : Array Frame} (h : firstDescent frames.toList = none) :
    FailsWith (fun e => isObstacle e) (lower frames) := by
  refine (failsWith_compress h).bind fun entries => ?_
  exact Pool.failsWith_toAttribute (fun _ => rfl)
    (stopsWith_list (fun _ => rfl) fun frame _ => stopsWith_frame frame)

end StackMap

end Classfile
