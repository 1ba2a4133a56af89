import Classfile.Proofs.Pool.Reachable
import Classfile.Proofs.Pool.WellFormed
import Classfile.Proofs.StackMap
import Mathlib.Data.List.Sort

/-!
# Compression of stack maps undone

The frames that a table was made from are found again from its entries, one by one: their offsets by
adding up the deltas, their types by looking up the classes in the pool. All other frames leave no
trace.
-/

namespace Classfile

open Classfile.Action Pool

namespace StackMap

/-! ### Decoding -/

/-- Offsets from deltas. The first delta is the offset, the later ones start after the offset before
them. -/
def offsetsFrom : Option Nat → List UInt16 → List Nat
  | _, [] => []
  | none, delta :: rest => delta.toNat :: offsetsFrom (some delta.toNat) rest
  | some previous, delta :: rest =>
    (previous + delta.toNat + 1) :: offsetsFrom (some (previous + delta.toNat + 1)) rest

def decodedOffsets (entries : List Layout.StackMapFrame) : List Nat :=
  offsetsFrom none (entries.map Layout.StackMapFrame.delta)

/-- An offset, the delta after it and the next offset. -/
theorem getElem?_offsetsFrom_succ {previous : Option Nat} {words : List UInt16} {i offset : Nat}
    {delta : UInt16} (hoffset : (offsetsFrom previous words)[i]? = some offset)
    (hdelta : words[i + 1]? = some delta) :
    (offsetsFrom previous words)[i + 1]? = some (offset + delta.toNat + 1) := by
  induction words generalizing previous i with
  | nil => cases hdelta
  | cons word rest ih =>
    obtain ⟨first, hfirst⟩ : ∃ first,
        offsetsFrom previous (word :: rest) = first :: offsetsFrom (some first) rest := by
      cases previous <;> exact ⟨_, rfl⟩
    rw [hfirst] at hoffset ⊢
    cases i with
    | zero =>
      cases hoffset
      cases rest with
      | nil => cases hdelta
      | cons next rest =>
        cases hdelta
        rfl
    | succ i => exact ih hoffset hdelta

/-- How a type stands in an entry. Classes are looked up in the pool. -/
inductive SlotOf (pool : Pool) : FieldType → Layout.VerificationType → Prop where
  | integer {base : BaseType} (h : base ∈ [.int, .boolean, .byte, .char, .short]) :
      SlotOf pool (.base base) .integer
  | object {name : String} {index : Index .type} {text : Index .utf8}
      (hclass : pool.constant? index = some (.type text)) (htext : pool.text? text = some name) :
      SlotOf pool (.object name) (.object index)
  /-- An array goes by its descriptor. -/
  | array {extra : UInt64} {element : Element} {index : Index .type} {text : Index .utf8}
      (hclass : pool.constant? index = some (.type text))
      (htext : pool.text? text = some (FieldType.render (.nested extra element))) :
      SlotOf pool (.nested extra element) (.object index)

/-- The entry has the types of the frame, the stack from bottom to top. -/
structure EntryOf (pool : Pool) (frame : Frame) (entry : Layout.StackMapFrame) : Prop where
  locals : List.Forall₂ (SlotOf pool) frame.locals.toList entry.locals
  stack : List.Forall₂ (SlotOf pool) frame.stack.reverse entry.stack

/-! ### The frames of the table -/

theorem mem_selected_iff {frames : List Frame} (h : firstDescent frames = none) {frame : Frame} :
    frame ∈ selected frames ↔ frame.offset ≠ 0 ∧
      (frames.filter fun other => other.offset = frame.offset).getLast? = some frame := by
  constructor
  · intro hmem
    have hoffset : frame.offset ≠ 0 := by
      simpa using (List.mem_filter.mp ((lastOfRuns_sublist _).mem hmem)).2
    refine ⟨hoffset, ?_⟩
    rw [← find?_selected h hoffset]
    cases hfind : (selected frames).find? (fun other => other.offset = frame.offset) with
    | none => simpa using List.find?_eq_none.mp hfind frame hmem
    | some other =>
      -- No two frames of the table have the same offset.
      have hdistinct : ((selected frames).map Frame.offset).Nodup :=
        List.pairwise_map.mpr ((selected_increasing h).imp UInt16.ne_of_lt)
      have hother : other.offset = frame.offset := by simpa using List.find?_some hfind
      have hsame := List.inj_on_of_nodup_map hdistinct (List.mem_of_find?_eq_some hfind) hmem hother
      rw [hsame]
  · rintro ⟨hoffset, hlast⟩
    rw [← find?_selected h hoffset] at hlast
    exact List.mem_of_find?_eq_some hlast

theorem mem_map_selected_iff {frames : List Frame} (h : firstDescent frames = none) {n : Nat} :
    n ∈ (selected frames).map (fun frame => frame.offset.toNat) ↔
      n ≠ 0 ∧ ∃ frame ∈ frames, frame.offset.toNat = n := by
  simp only [List.mem_map, mem_selected_iff h]
  constructor
  · rintro ⟨frame, ⟨hoffset, hlast⟩, rfl⟩
    refine ⟨fun hzero => hoffset (UInt16.toNat_inj.mp hzero), frame, ?_, rfl⟩
    exact List.mem_of_mem_filter (List.mem_of_getLast? hlast)
  · rintro ⟨hn, frame, hmem, rfl⟩
    obtain ⟨last, hlast⟩ : ∃ last,
        (frames.filter fun other => other.offset = frame.offset).getLast? = some last := by
      rw [← Option.isSome_iff_exists, List.getLast?_isSome]
      exact List.ne_nil_of_mem (List.mem_filter.mpr ⟨hmem, by simp⟩)
    have hoffset : last.offset = frame.offset := by
      simpa using (List.mem_filter.mp (List.mem_of_getLast? hlast)).2
    refine ⟨last, ⟨fun hzero => hn ?_, by rw [hoffset, hlast]⟩, by rw [hoffset]⟩
    rw [← hoffset, hzero]
    rfl

/-- The table is made of the last frames alone. -/
theorem selected_eq {frames others : List Frame} (h : firstDescent frames = none)
    (hothers : firstDescent others = none)
    (hlast : ∀ offset, offset ≠ 0 → (others.filter fun frame => frame.offset = offset).getLast? =
      (frames.filter fun frame => frame.offset = offset).getLast?) :
    selected others = selected frames := by
  have hantisymm : Std.Antisymm fun a b : Frame => a.offset < b.offset :=
    ⟨fun _ _ hab hba => absurd hab (UInt16.lt_asymm hba)⟩
  have hirrefl : Std.Irrefl fun a b : Frame => a.offset < b.offset := ⟨fun _ => UInt16.lt_irrefl _⟩
  apply (selected_increasing hothers).eq_of_mem_iff (selected_increasing h)
  intro frame
  rw [mem_selected_iff h, mem_selected_iff hothers]
  exact and_congr_right fun hoffset => by rw [hlast _ hoffset]

theorem compress_eq {frames : List Frame} (h : firstDescent frames = none) :
    compress frames = Action.traverse (fun (delta, frame) => do
      Action.report (.frameEncoded frame.offset delta)
      frame.encode delta) (deltas none (selected frames)) := by
  rw [compress, h]

theorem firstDescent_of_compress {frames : List Frame} {pool : Pool}
    {entries : List Layout.StackMapFrame} (h : (compress frames pool).result = .ok entries) :
    firstDescent frames = none := by
  cases hdescent : firstDescent frames with
  | none => rfl
  | some pair =>
    rw [compress, hdescent] at h
    cases h

/-! ### Types -/

open Description

theorem exists_of_classAt? {pool : Pool} {index : Index .type} {name : String}
    (h : classAt? pool.toList index = some name) :
    ∃ text, pool.constant? index = some (.type text) ∧ pool.text? text = some name := by
  unfold classAt? textAt? at h
  simp only [constantAt?_toList] at h
  split at h
  · next text hclass => exact ⟨text, hclass, h⟩
  · cases h

/-- A slot that is resolved to what the verifier sees of a type stands for the type. -/
theorem slotOf_of_seen {pool : Pool} {type : FieldType} {slot : Layout.VerificationType}
    {seen : SeenType} (htype : type.seen? = some seen)
    (hslot : resolveType pool.toList slot = some seen) : SlotOf pool type slot := by
  match type, slot with
  | .bare (.base base), .integer =>
    cases base <;> first | exact .integer (by decide) | cases htype
  | .bare (.base base), .object index =>
    obtain ⟨name, -, rfl⟩ := Option.map_eq_some_iff.mp hslot
    cases base <;> cases htype
  | .bare (.object name), .object index =>
    cases htype
    obtain ⟨_, hname, ⟨⟩⟩ := Option.map_eq_some_iff.mp hslot
    obtain ⟨text, hclass, htext⟩ := exists_of_classAt? hname
    exact .object hclass htext
  | .nested extra element, .object index =>
    cases htype
    obtain ⟨_, hname, ⟨⟩⟩ := Option.map_eq_some_iff.mp hslot
    obtain ⟨text, hclass, htext⟩ := exists_of_classAt? hname
    exact .array hclass htext
  | .bare (.object name), .integer =>
    cases hslot
    cases htype
  | .nested extra element, .integer =>
    cases hslot
    cases htype

theorem slotsOf_of_seen {pool : Pool} {types : List FieldType}
    {slots : List Layout.VerificationType} {seen : List SeenType}
    (htypes : types.mapM FieldType.seen? = some seen)
    (hslots : slots.mapM (resolveType pool.toList) = some seen) :
    List.Forall₂ (SlotOf pool) types slots := by
  refine (forall₂_join (forall₂_of_mapM htypes) (forall₂_of_mapM hslots)).imp ?_
  rintro type slot ⟨_, htype, hslot⟩
  exact slotOf_of_seen htype hslot

theorem entryOf_of_described {pool : Pool} {frame : Frame} {entry : Layout.StackMapFrame}
    {offset : Nat} {resolved : FrameEntry}
    (hframe : frame.describe? = some { resolved with offset })
    (hentry : resolveFrame pool.toList entry = some resolved) : EntryOf pool frame entry := by
  simp only [Frame.describe?, Option.bind_eq_bind, Option.bind_eq_some_iff] at hframe
  simp only [resolveFrame, Option.bind_eq_bind, Option.bind_eq_some_iff] at hentry
  obtain ⟨locals, hlocals, stack, hstack, hframe⟩ := hframe
  obtain ⟨locals', hlocals', stack', hstack', hentry⟩ := hentry
  cases hentry
  obtain ⟨-, rfl, rfl⟩ := FrameEntry.mk.inj (Option.some.inj hframe)
  exact ⟨slotsOf_of_seen hlocals hlocals', slotsOf_of_seen hstack hstack'⟩

/-- Entries that are placed where the frames stand lead back to the frames. -/
theorem decoded_of_placed {pool : Pool} {frames : List Frame} {entries : List Layout.StackMapFrame}
    {resolved : List FrameEntry} {previous : Option Nat}
    (hentries : List.Forall₂ (fun entry shown => resolveFrame pool.toList entry = some shown)
      entries resolved)
    (hframes : List.Forall₂ (fun frame shown => frame.describe? = some shown)
      frames (placed previous resolved)) :
    offsetsFrom previous (entries.map Layout.StackMapFrame.delta) =
        frames.map (fun frame => frame.offset.toNat) ∧
      List.Forall₂ (EntryOf pool) frames entries := by
  induction hentries generalizing previous frames with
  | nil =>
    cases hframes
    exact ⟨rfl, .nil⟩
  | @cons entry shown entries resolved hentry _ ih =>
    cases hframes with
    | @cons frame _ _ _ hframe hrest =>
      obtain ⟨hoffsets, hforms⟩ := ih hrest
      refine ⟨?_, .cons (entryOf_of_described hframe hentry) hforms⟩
      have hdelta : shown.offset = entry.delta.toNat := by
        simp only [resolveFrame, Option.bind_eq_bind, Option.bind_eq_some_iff] at hentry
        obtain ⟨_, -, _, -, hentry⟩ := hentry
        cases hentry
        rfl
      rw [List.map_cons, List.map_cons, ← hoffsets, ← describe?_offset hframe]
      cases previous <;> simp only [offsetsFrom, hdelta]

/-- **Compression undone.** The deltas of a table lead to the offsets of the frames it was made
from, each once and in order, but for offset 0. Every delta is the distance without wrapping around,
and every entry has the types of the last frame at its offset. A table depends on these frames
alone. -/
theorem decode_compress {frames : List Frame} {pool : Pool} {entries : List Layout.StackMapFrame}
    (hpool : pool.Reachable) (h : (compress frames pool).result = .ok entries) :
    let final := (compress frames pool).state
    let offsets := decodedOffsets entries
    offsets.Pairwise (· < ·) ∧
    (∀ n, n ∈ offsets ↔ n ≠ 0 ∧ ∃ frame ∈ frames, frame.offset.toNat = n) ∧
    (∀ i previous offset entry, offsets[i]? = some previous → offsets[i + 1]? = some offset →
      entries[i + 1]? = some entry → previous + 1 ≤ offset ∧
        entry.delta.toNat = offset - previous - 1 ∧
        entry.delta = .ofNat offset - .ofNat previous - 1) ∧
    List.Forall₂ (fun offset entry => ∃ frame,
      (frames.filter fun frame => frame.offset.toNat = offset).getLast? = some frame ∧
        EntryOf final frame entry) offsets entries ∧
    ∀ others : List Frame, others.Pairwise (fun a b => a.offset ≤ b.offset) →
      (∀ offset, offset ≠ 0 → (others.filter fun frame => frame.offset = offset).getLast? =
        (frames.filter fun frame => frame.offset = offset).getLast?) →
      compress others pool = compress frames pool := by
  intro final offsets
  have hdescent := firstDescent_of_compress h
  have hincreasing := selected_increasing hdescent
  have hfinal : final.Bounded := moves_compress bounded_add frames pool hpool.bounded
  obtain ⟨_, hframes, hplaced⟩ := denotes_compress frames (gives_of_result h) hfinal.within
  obtain ⟨resolved, hresolved, rfl⟩ := Option.map_eq_some_iff.mp hplaced
  obtain ⟨(hoffsets : offsets = _), hentries⟩ :=
    decoded_of_placed (forall₂_of_mapM hresolved) (forall₂_of_mapM hframes)
  refine ⟨?_, ?_, ?_, ?_, ?_⟩
  · rw [hoffsets, List.pairwise_map]
    exact hincreasing.imp UInt16.lt_iff_toNat_lt.mp
  · intro n
    rw [hoffsets]
    exact mem_map_selected_iff hdescent
  · intro i previous offset entry hprevious hoffset hentry
    have hdelta : (entries.map Layout.StackMapFrame.delta)[i + 1]? = some entry.delta := by
      rw [List.getElem?_map, hentry]
      rfl
    have hnext := getElem?_offsetsFrom_succ hprevious hdelta
    have hsum : offset = previous + entry.delta.toNat + 1 :=
      Option.some.inj (hoffset.symm.trans hnext)
    have hlt : offset < 0x10000 := by
      have hmem := List.mem_of_getElem? hoffset
      rw [hoffsets, mem_map_selected_iff hdescent] at hmem
      obtain ⟨-, frame, -, rfl⟩ := hmem
      exact frame.offset.toNat_lt
    refine ⟨by omega, by omega, UInt16.toNat_inj.mp ?_⟩
    simp only [UInt16.toNat_sub, UInt16.toNat_ofNat', UInt16.toNat_ofNat]
    omega
  · rw [hoffsets, List.forall₂_map_left_iff]
    have hlast : ∀ frame ∈ selected frames, (frames.filter fun other =>
        other.offset.toNat = frame.offset.toNat).getLast? = some frame := by
      intro frame hmem
      simpa only [UInt16.toNat_inj] using ((mem_selected_iff hdescent).mp hmem).2
    have hboth := (List.forall₂_and_left _ _).mpr ⟨hlast, hentries⟩
    exact hboth.imp fun frame entry hpair => ⟨frame, hpair⟩
  · intro others hascending hsame
    have hothers := firstDescent_eq_none_of_pairwise hascending
    rw [compress_eq hothers, compress_eq hdescent, selected_eq hdescent hothers hsame]

/-- A frame at offset 0, one that is replaced by the next, and frames at consecutive offsets. -/
def denseFrames : List Frame :=
  [⟨0, #[.int], []⟩, ⟨3, #[.object "Unseen"], []⟩,
    ⟨3, #[.base .char, .string], [(FieldType.base .long).array, .base .boolean]⟩,
    ⟨4, #[], []⟩, ⟨300, #[.object "Größe"], []⟩]

def stringPool : Pool := Run.final Addition.run [.string "x", .type "java/lang/String"] .empty

theorem decode_compress_denseFrames :
    stringPool.Reachable ∧ ∃ entries, (compress denseFrames stringPool).result = .ok entries ∧
    decodedOffsets entries = [3, 4, 300] ∧
    List.Forall₂ (fun offset entry => ∃ frame,
      (denseFrames.filter fun frame => frame.offset.toNat = offset).getLast? = some frame ∧
        EntryOf (compress denseFrames stringPool).state frame entry) [3, 4, 300] entries ∧
    compress (denseFrames.drop 2) stringPool = compress denseFrames stringPool := by
  have hpool : stringPool.Reachable := ⟨_, rfl⟩
  obtain ⟨entries, hentries⟩ : ∃ entries, (compress denseFrames stringPool).result = .ok entries ∧
      decodedOffsets entries = [3, 4, 300] := ⟨_, rfl, by decide⟩
  obtain ⟨-, -, -, htypes, hothers⟩ := decode_compress hpool hentries.1
  refine ⟨hpool, entries, hentries.1, hentries.2, hentries.2 ▸ htypes, ?_⟩
  refine hothers (denseFrames.drop 2) (by decide) fun offset hoffset => ?_
  by_cases hthree : offset = 3
  · subst hthree
    decide
  · have hrest : (denseFrames.take 2).filter (fun frame => frame.offset = offset) = [] := by
      simp [denseFrames, Ne.symm hoffset, Ne.symm hthree]
    rw [← List.take_append_drop 2 denseFrames, List.filter_append, hrest]
    rfl

end StackMap

end Classfile
