import Classfile.Proofs.Errors
import Classfile.Proofs.Pool.Room
import Classfile.Proofs.StackMap.Compression

/-!
# Failures of stack maps

Offsets that descend are found first, before any type is looked at and before the pool is touched.
After that nothing but a type without a form in a frame can stop a table for which there is room in
the pool, and only in a frame that the table keeps. The first such type is the one reported.
-/

namespace Classfile

open Classfile.Action Pool

/-- Types that the verifier knows and a frame has no form for. -/
def FieldType.unsupported : List FieldType := [.base .long, .base .float, .base .double]

/-- The constants by which a reference type is known in the pool. -/
def FieldType.named (type : FieldType) : List Addition :=
  match type.base? with
  | some _ => []
  | none => [.utf8 type.className, .type type.className]

namespace Frame

/-- The types of a frame in the order in which they are written, lower slots first. -/
def slots (frame : Frame) : List FieldType := frame.locals.toList ++ frame.stack.reverse

def obstacle? (frame : Frame) : Option FieldType :=
  frame.slots.find? fun type => type ∈ FieldType.unsupported

end Frame

namespace StackMap

/-- The constants for all classes that the frames name. -/
def wanted (frames : List Frame) : Finset Addition :=
  ((frames.flatMap Frame.slots).flatMap FieldType.named).toFinset

/-- The frame at a position comes after one with a larger offset. -/
def DescendsAt (frames : List Frame) (i : Nat) : Prop :=
  ∃ a b, frames[i]? = some a ∧ frames[i + 1]? = some b ∧ b.offset < a.offset

def lastAt? (frames : List Frame) (offset : UInt16) : Option Frame :=
  (frames.filter fun frame => frame.offset = offset).getLast?

/-- The type is the first one without a form in the last frames at the offsets, in order of the
offsets and not counting offset 0. -/
def Obstructs (frames : List Frame) (type : FieldType) : Prop :=
  ∃ offset frame, offset ≠ 0 ∧ lastAt? frames offset = some frame ∧
    frame.obstacle? = some type ∧
    ∀ other earlier, other ≠ 0 → other < offset → lastAt? frames other = some earlier →
      ∀ type ∈ earlier.slots, type ∉ FieldType.unsupported

/-! ### Descending offsets -/

theorem descendsAt_cons_succ {a : Frame} {frames : List Frame} {i : Nat} :
    DescendsAt (a :: frames) (i + 1) ↔ DescendsAt frames i := by
  simp only [DescendsAt, List.getElem?_cons_succ]

theorem firstDescent_eq_some_iff {frames : List Frame} {previous offset : UInt16} :
    firstDescent frames = some (previous, offset) ↔
      ∃ i a b, frames[i]? = some a ∧ frames[i + 1]? = some b ∧ b.offset < a.offset ∧
        (∀ j < i, ¬ DescendsAt frames j) ∧ a.offset = previous ∧ b.offset = offset := by
  fun_induction firstDescent frames with
  | case1 a b rest hdescent =>
    constructor
    · intro h
      cases h
      exact ⟨0, a, b, rfl, rfl, hdescent, by simp, rfl, rfl⟩
    · rintro ⟨i, a', b', ha, hb, -, hfirst, rfl, rfl⟩
      cases i with
      | zero =>
        cases ha
        cases hb
        rfl
      | succ i => exact absurd ⟨a, b, rfl, rfl, hdescent⟩ (hfirst 0 (Nat.succ_pos i))
  | case2 a b rest hascent ih =>
    rw [ih]
    constructor
    · rintro ⟨i, a', b', ha, hb, hdescent, hfirst, hpair⟩
      refine ⟨i + 1, a', b', ha, hb, hdescent, fun j hj => ?_, hpair⟩
      cases j with
      | zero =>
        rintro ⟨_, _, ⟨⟩, ⟨⟩, hlt⟩
        exact hascent hlt
      | succ j => exact fun h => hfirst j (Nat.lt_of_succ_lt_succ hj) (descendsAt_cons_succ.mp h)
    · rintro ⟨i, a', b', ha, hb, hdescent, hfirst, hpair⟩
      cases i with
      | zero =>
        cases ha
        cases hb
        exact absurd hdescent hascent
      | succ i =>
        exact ⟨i, a', b', ha, hb, hdescent, fun j hj h =>
          hfirst (j + 1) (Nat.succ_lt_succ hj) (descendsAt_cons_succ.mpr h), hpair⟩
  | case3 frames hshort =>
    constructor
    · intro h
      cases h
    · rintro ⟨i, a, b, ha, hb, -⟩
      cases frames with
      | nil => cases ha
      | cons first rest =>
        cases rest with
        | nil => simp at hb
        | cons second rest => exact absurd rfl (hshort first second rest)

theorem firstDescent_eq_none_iff {frames : List Frame} :
    firstDescent frames = none ↔ ∀ i, ¬ DescendsAt frames i := by
  constructor
  · rintro h i ⟨a, b, ha, hb, hdescent⟩
    have hascending := pairwise_of_firstDescent_eq_none h
    obtain ⟨hi, rfl⟩ := List.getElem?_eq_some_iff.mp ha
    obtain ⟨hj, rfl⟩ := List.getElem?_eq_some_iff.mp hb
    have hle := List.pairwise_iff_getElem.mp hascending i (i + 1) hi hj (Nat.lt_succ_self i)
    exact absurd hdescent (UInt16.not_lt.mpr hle)
  · intro h
    cases hdescent : firstDescent frames with
    | none => rfl
    | some pair =>
      obtain ⟨i, a, b, ha, hb, hlt, -⟩ := firstDescent_eq_some_iff.mp hdescent
      exact absurd ⟨a, b, ha, hb, hlt⟩ (h i)

/-! ### Types without a form -/

section Settling

variable {α β : Type} {wanted : Finset Addition} {x y : Action Pool α}

/-- In a pool with room for what is wanted, the action fails for the given type, or it succeeds and
leaves as much room if no type is given. -/
def Settles (wanted : Finset Addition) (x : Action Pool α) (obstacle : Option FieldType) : Prop :=
  ∀ pool : Pool, pool.Room wanted →
    match obstacle with
    | none => ∃ a later, Gives x pool a later ∧ later.Room wanted
    | some type => ∃ later, Fails x pool (.unsupportedVerificationType type) later

theorem Settles.congr (h : Alike x y) {obstacle : Option FieldType}
    (hy : Settles wanted y obstacle) : Settles wanted x obstacle := by
  intro pool hpool
  have hy := hy pool hpool
  cases obstacle with
  | none =>
    obtain ⟨a, later, hgives, hroom⟩ := hy
    exact ⟨a, later, h.gives_iff.mpr hgives, hroom⟩
  | some type =>
    obtain ⟨later, hfails⟩ := hy
    exact ⟨later, h.fails_iff.mpr hfails⟩

/-- The first step decides, unless nothing stands in its way. -/
theorem Settles.bind {f : α → Action Pool β} {first second : Option FieldType}
    (hx : Settles wanted x first) (hf : ∀ a, Settles wanted (f a) second) :
    Settles wanted (x >>= f) (first.or second) := by
  intro pool hpool
  have hx := hx pool hpool
  cases first with
  | some type =>
    obtain ⟨later, hfails⟩ := hx
    exact ⟨later, fails_bind.mpr (.inl hfails)⟩
  | none =>
    obtain ⟨a, mid, hgives, hroom⟩ := hx
    have hf := hf a mid hroom
    cases second with
    | none =>
      obtain ⟨b, later, hgives', hroom'⟩ := hf
      exact ⟨b, later, gives_bind.mpr ⟨a, mid, hgives, hgives'⟩, hroom'⟩
    | some type =>
      obtain ⟨later, hfails⟩ := hf
      exact ⟨later, fails_bind.mpr (.inr ⟨a, mid, hgives, hfails⟩)⟩

theorem settles_pure (a : α) : Settles wanted (pure a : Action Pool α) none :=
  fun pool hpool => ⟨a, pool, gives_pure.mpr ⟨rfl, rfl⟩, hpool⟩

theorem settles_report (event : Event) : Settles wanted (report event) none :=
  fun pool hpool => ⟨(), pool, gives_report.mpr rfl, hpool⟩

theorem settles_traverse {f : α → Action Pool β} {obstacle : α → Option FieldType}
    {items : List α} (hf : ∀ a ∈ items, Settles wanted (f a) (obstacle a)) :
    Settles wanted (Action.traverse f items) (items.findSome? obstacle) := by
  induction items with
  | nil => exact settles_pure []
  | cons a rest ih =>
    rw [List.forall_mem_cons] at hf
    have hcons := hf.1.bind fun b => (ih hf.2).bind fun more => settles_pure (b :: more)
    have hfirst : (a :: rest).findSome? obstacle =
        (obstacle a).or ((rest.findSome? obstacle).or none) := by
      rw [List.findSome?_cons, Option.or_none]
      cases obstacle a <;> rfl
    rw [hfirst]
    exact hcons.congr (alike_traverse_cons f a rest)

end Settling

section Frames

variable {wanted : Finset Addition}

theorem settles_verification {type : FieldType} (h : ∀ addition ∈ type.named, addition ∈ wanted) :
    Settles wanted type.verification (Option.guard (· ∈ FieldType.unsupported) type) := by
  unfold FieldType.named at h
  unfold FieldType.verification
  cases hbase : type.base? with
  | none =>
    have hsupported : type ∉ FieldType.unsupported := by
      intro hmem
      simp only [FieldType.unsupported, List.mem_cons, List.not_mem_nil, or_false] at hmem
      obtain rfl | rfl | rfl := hmem <;> cases hbase
    simp only [hbase, List.forall_mem_cons] at h
    have hclass : Settles wanted (addClass type.className) none :=
      fun pool hpool => hpool.gives_addClass h.1 h.2.1
    have hall := hclass.bind fun index =>
      (settles_report (.verificationClass type index)).bind fun _ =>
        settles_pure (Layout.VerificationType.object index)
    simpa [Option.guard, hsupported] using hall
  | some base =>
    obtain rfl : type = .base base := by
      unfold FieldType.base? at hbase
      split at hbase
      · cases hbase
        rfl
      · cases hbase
    cases hint : base.isIntLike with
    | true =>
      have hsupported : FieldType.base base ∉ FieldType.unsupported := by
        cases base <;> first | decide | cases hint
      simpa [Option.guard, hsupported, hint] using settles_pure Layout.VerificationType.integer
    | false =>
      have hunsupported : FieldType.base base ∈ FieldType.unsupported := by
        cases base <;> first | decide | cases hint
      simp only [Option.guard, hunsupported, decide_true, if_true, hint, Bool.false_eq_true,
        if_false]
      exact fun pool _ => ⟨pool, fails_fail.mpr ⟨rfl, rfl⟩⟩

theorem settles_encode {frame : Frame} (delta : UInt16)
    (h : ∀ type ∈ frame.slots, ∀ addition ∈ type.named, addition ∈ wanted) :
    Settles wanted (frame.encode delta) frame.obstacle? := by
  have hlocals : Settles wanted (Action.traverse FieldType.verification frame.locals.toList) _ :=
    settles_traverse fun type hmem => settles_verification (h type (List.mem_append_left _ hmem))
  have hstack : Settles wanted (Action.traverse FieldType.verification frame.stack.reverse) _ :=
    settles_traverse fun type hmem => settles_verification (h type (List.mem_append_right _ hmem))
  have hall := hlocals.bind fun locals => hstack.bind fun stack =>
    settles_pure (⟨delta, locals, stack⟩ : Layout.StackMapFrame)
  rwa [List.findSome?_guard, List.findSome?_guard, Option.or_none, ← List.find?_append] at hall

theorem map_snd_deltas (previous : Option UInt16) (frames : List Frame) :
    (deltas previous frames).map Prod.snd = frames := by
  induction frames generalizing previous with
  | nil => cases previous <;> rfl
  | cons frame rest ih => cases previous <;> simp [deltas, ih]

theorem settles_compress {frames : List Frame} (hdescent : firstDescent frames = none)
    (h : ∀ frame ∈ selected frames, ∀ type ∈ frame.slots, ∀ addition ∈ type.named,
      addition ∈ wanted) :
    Settles wanted (compress frames) ((selected frames).findSome? Frame.obstacle?) := by
  have hmap := map_snd_deltas none (selected frames)
  have hobstacle : (selected frames).findSome? Frame.obstacle? =
      (deltas none (selected frames)).findSome? fun entry => entry.2.obstacle? := by
    calc (selected frames).findSome? Frame.obstacle?
        = ((deltas none (selected frames)).map Prod.snd).findSome? Frame.obstacle? := by rw [hmap]
      _ = (deltas none (selected frames)).findSome? fun entry => entry.2.obstacle? :=
        List.findSome?_map
  rw [compress_eq hdescent, hobstacle]
  refine settles_traverse fun entry hentry => ?_
  have hframe : entry.2 ∈ selected frames := by
    rw [← hmap]
    exact List.mem_map_of_mem hentry
  exact (settles_report _).bind fun _ => settles_encode entry.1 (h entry.2 hframe)

end Frames

theorem obstacle?_eq_none_iff {frame : Frame} :
    frame.obstacle? = none ↔ ∀ type ∈ frame.slots, type ∉ FieldType.unsupported := by
  simp [Frame.obstacle?, List.find?_eq_none]

theorem lastAt?_eq_some {frames : List Frame} {offset : UInt16} {frame : Frame}
    (h : lastAt? frames offset = some frame) : frame.offset = offset := by
  simpa using (List.mem_filter.mp (List.mem_of_getLast? h)).2

/-- The frames of the table are looked at in the order of their offsets. -/
theorem findSome?_selected_iff {frames : List Frame} (hdescent : firstDescent frames = none)
    {type : FieldType} :
    (selected frames).findSome? Frame.obstacle? = some type ↔ Obstructs frames type := by
  have hincreasing := selected_increasing hdescent
  constructor
  · intro h
    obtain ⟨before, frame, after, hsplit, htype, hbefore⟩ := List.findSome?_eq_some_iff.mp h
    have hmem : frame ∈ selected frames := by simp [hsplit]
    obtain ⟨hoffset, hlast⟩ := (mem_selected_iff hdescent).mp hmem
    refine ⟨frame.offset, frame, hoffset, hlast, htype, fun other earlier hother hlt hearlier => ?_⟩
    rw [← obstacle?_eq_none_iff]
    obtain rfl := lastAt?_eq_some hearlier
    have hkept : earlier ∈ selected frames := (mem_selected_iff hdescent).mpr ⟨hother, hearlier⟩
    rw [hsplit, List.mem_append, List.mem_cons] at hkept
    rw [hsplit, List.pairwise_append, List.pairwise_cons] at hincreasing
    obtain hkept | rfl | hkept := hkept
    · exact hbefore earlier hkept
    · exact absurd hlt (UInt16.lt_irrefl _)
    · exact absurd hlt (UInt16.lt_asymm (hincreasing.2.1.1 earlier hkept))
  · rintro ⟨offset, frame, hoffset, hlast, htype, hfirst⟩
    obtain rfl := lastAt?_eq_some hlast
    have hmem : frame ∈ selected frames := (mem_selected_iff hdescent).mpr ⟨hoffset, hlast⟩
    obtain ⟨before, after, hsplit⟩ := List.append_of_mem hmem
    refine List.findSome?_eq_some_iff.mpr ⟨before, frame, after, hsplit, htype, ?_⟩
    intro earlier hearlier
    have hkept : earlier ∈ selected frames := by simp [hsplit, hearlier]
    obtain ⟨hother, hlast'⟩ := (mem_selected_iff hdescent).mp hkept
    rw [hsplit, List.pairwise_append] at hincreasing
    have hlt := hincreasing.2.2 earlier hearlier frame List.mem_cons_self
    exact obstacle?_eq_none_iff.mpr (hfirst earlier.offset earlier hother hlt hlast')

theorem named_mem_wanted {frames : List Frame} {frame : Frame} (hframe : frame ∈ frames)
    {type : FieldType} (htype : type ∈ frame.slots) {addition : Addition}
    (haddition : addition ∈ type.named) : addition ∈ wanted frames := by
  rw [wanted, List.mem_toFinset, List.mem_flatMap]
  exact ⟨type, List.mem_flatMap.mpr ⟨frame, hframe, htype⟩, haddition⟩

theorem exists_obstructs_iff {frames : List Frame} (hdescent : firstDescent frames = none) :
    (∃ type, Obstructs frames type) ↔ ∃ offset frame, offset ≠ 0 ∧
      lastAt? frames offset = some frame ∧ ∃ type ∈ frame.slots, type ∈ FieldType.unsupported := by
  simp only [← findSome?_selected_iff hdescent, ← Option.isSome_iff_exists,
    List.isSome_findSome?, List.any_eq_true]
  constructor
  · rintro ⟨frame, hframe, hsome⟩
    obtain ⟨hoffset, hlast⟩ := (mem_selected_iff hdescent).mp hframe
    obtain ⟨type, htype⟩ := Option.isSome_iff_exists.mp hsome
    exact ⟨frame.offset, frame, hoffset, hlast, type, List.mem_of_find?_eq_some htype,
      by simpa using List.find?_some htype⟩
  · rintro ⟨offset, frame, hoffset, hlast, type, htype, hunsupported⟩
    obtain rfl := lastAt?_eq_some hlast
    refine ⟨frame, (mem_selected_iff hdescent).mpr ⟨hoffset, hlast⟩, ?_⟩
    rw [Frame.obstacle?, List.find?_isSome]
    exact ⟨type, htype, by simpa using hunsupported⟩

theorem compress_of_descent {frames : List Frame} {previous offset : UInt16}
    (h : firstDescent frames = some (previous, offset)) (pool : Pool) :
    Fails (compress frames) pool (.descendingOffset previous offset) pool := by
  rw [compress, h]
  exact fails_report_bind.mpr (fails_fail.mpr ⟨rfl, rfl⟩)

/-- **Failures of stack maps.** A table is refused for descending offsets exactly if a frame comes
after one with a larger offset, whatever the types. The first such pair is reported, and the pool is
left alone. Otherwise, if there is room for the classes of the frames, a type is refused exactly if
the last frame at an offset other than 0 has a `long`, `float` or `double`. The first such type is
reported, by offset, with the locals before the stack and lower slots first. Nothing else fails. -/
theorem compress_fails_iff (frames : List Frame) (pool : Pool) :
    let result := (compress frames pool).result
    ((∃ previous offset, result = .error (.descendingOffset previous offset)) ↔
      ∃ i, DescendsAt frames i) ∧
    (∀ previous offset, result = .error (.descendingOffset previous offset) →
      (compress frames pool).state = pool ∧
      ∃ i a b, frames[i]? = some a ∧ frames[i + 1]? = some b ∧ b.offset < a.offset ∧
        (∀ j < i, ¬ DescendsAt frames j) ∧ a.offset = previous ∧ b.offset = offset) ∧
    ((∀ i, ¬ DescendsAt frames i) → pool.Room (wanted frames) →
      ((∃ type, result = .error (.unsupportedVerificationType type)) ↔
        ∃ offset frame, offset ≠ 0 ∧ lastAt? frames offset = some frame ∧
          ∃ type ∈ frame.slots, type ∈ FieldType.unsupported) ∧
      (∀ type, result = .error (.unsupportedVerificationType type) → Obstructs frames type) ∧
      ((∀ type, result ≠ .error (.unsupportedVerificationType type)) →
        ∃ entries, result = .ok entries)) := by
  intro result
  cases hdescent : firstDescent frames with
  | some pair =>
    have hfails := compress_of_descent hdescent pool
    obtain ⟨i, a, b, ha, hb, hlt, hfirst, hprevious, hoffset⟩ :=
      firstDescent_eq_some_iff.mp hdescent
    refine ⟨iff_of_true ⟨_, _, hfails.1⟩ ⟨i, a, b, ha, hb, hlt⟩, fun previous offset h => ?_,
      fun hascending => absurd ⟨a, b, ha, hb, hlt⟩ (hascending i)⟩
    obtain ⟨rfl, rfl⟩ : pair.1 = previous ∧ pair.2 = offset := by
      simpa using hfails.1.symm.trans h
    exact ⟨hfails.2, i, a, b, ha, hb, hlt, hfirst, hprevious, hoffset⟩
  | none =>
    have hascending := firstDescent_eq_none_iff.mp hdescent
    have hother : ∀ previous offset, result ≠ .error (.descendingOffset previous offset) := by
      intro previous offset h
      cases failsWith_compress hdescent ⟨h, rfl⟩
    refine ⟨iff_of_false (fun ⟨previous, offset, h⟩ => hother previous offset h)
      (fun ⟨i, hi⟩ => hascending i hi), fun previous offset h => absurd h (hother previous offset),
      fun _ hroom => ?_⟩
    have hsettles := settles_compress hdescent (fun frame hframe type htype addition =>
      named_mem_wanted (((lastOfRuns_sublist _).trans List.filter_sublist).mem hframe) htype)
      pool hroom
    rw [← exists_obstructs_iff hdescent]
    simp only [← findSome?_selected_iff hdescent]
    cases hobstacle : (selected frames).findSome? Frame.obstacle? with
    | none =>
      rw [hobstacle] at hsettles
      obtain ⟨entries, later, hgives, -⟩ := hsettles
      have hresult : result = .ok entries := hgives.1
      simp [hresult]
    | some type =>
      rw [hobstacle] at hsettles
      obtain ⟨later, hfails⟩ := hsettles
      have hresult : result = .error (.unsupportedVerificationType type) := hfails.1
      simp [hresult]

/-- Types without a form at offset 0, in a frame that is replaced, in the middle of a stack and in a
later frame. -/
def mixedFrames : List Frame :=
  [⟨0, #[.base .float], []⟩, ⟨3, #[.base .double], []⟩, ⟨3, #[.string], []⟩,
    ⟨9, #[.int, .object "A"], [.base .double, .base .long, (FieldType.base .long).array]⟩,
    ⟨12, #[.base .float], []⟩]

/-- The first of them that counts is the lower one on the stack. In the opposite order the offsets
are refused instead. -/
theorem compress_fails_iff_mixedFrames :
    stringPool.Room (wanted mixedFrames) ∧ (∀ i, ¬ DescendsAt mixedFrames i) ∧
    (compress mixedFrames stringPool).result =
      .error (.unsupportedVerificationType (.base .long)) ∧
    Obstructs mixedFrames (.base .long) ∧
    (compress mixedFrames.reverse stringPool).result = .error (.descendingOffset 12 9) ∧
    (compress mixedFrames.reverse stringPool).state = stringPool := by
  have hroom : stringPool.Room (wanted mixedFrames) := by decide
  have hascending : ∀ i, ¬ DescendsAt mixedFrames i := firstDescent_eq_none_iff.mp rfl
  have hresult : (compress mixedFrames stringPool).result =
      .error (.unsupportedVerificationType (.base .long)) := rfl
  have hdescent : (compress mixedFrames.reverse stringPool).result =
      .error (.descendingOffset 12 9) := rfl
  obtain ⟨-, -, hkept⟩ := compress_fails_iff mixedFrames stringPool
  obtain ⟨-, hfirst, -⟩ := compress_fails_iff mixedFrames.reverse stringPool
  exact ⟨hroom, hascending, hresult, (hkept hascending hroom).2.1 _ hresult, hdescent,
    (hfirst 12 9 hdescent).1⟩

end StackMap

end Classfile
