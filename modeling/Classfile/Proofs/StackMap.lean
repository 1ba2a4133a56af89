import Classfile.Proofs.Class.Description

/-!
# Stack maps read back

The frames of a stack map stand at increasing offsets, so their offsets can be found again from the
deltas.
-/

namespace Classfile

open Classfile.Action Pool

namespace StackMap

theorem pairwise_of_firstDescent_eq_none {frames : List Frame} (h : firstDescent frames = none) :
    frames.Pairwise fun a b => a.offset ≤ b.offset := by
  fun_induction firstDescent frames with
  | case1 a b rest hdescent => cases h
  | case2 a b rest hascent ih =>
    have hrest := ih h
    have hle : a.offset ≤ b.offset := UInt16.not_lt.mp hascent
    refine .cons (List.forall_mem_cons.mpr ⟨hle, fun frame hmem => ?_⟩) hrest
    exact UInt16.le_trans hle (List.rel_of_pairwise_cons hrest hmem)
  | case3 frames hshort =>
    match frames with
    | [] => exact .nil
    | [a] => exact List.pairwise_singleton ..
    | a :: b :: rest => exact absurd rfl (hshort a b rest)

theorem firstDescent_eq_none_of_pairwise {frames : List Frame}
    (h : frames.Pairwise fun a b => a.offset ≤ b.offset) : firstDescent frames = none := by
  fun_induction firstDescent frames with
  | case1 a b rest hdescent =>
    exact absurd hdescent (UInt16.not_lt.mpr (List.rel_of_pairwise_cons h List.mem_cons_self))
  | case2 a b rest hascent ih => exact ih h.of_cons
  | case3 frames => rfl

theorem lastOfRuns_sublist (frames : List Frame) : (lastOfRuns frames).Sublist frames := by
  fun_induction lastOfRuns frames with
  | case1 a b rest heq ih => exact .cons a ih
  | case2 a b rest hne ih => exact .cons_cons a ih
  | case3 frames => exact .refl frames

theorem lastOfRuns_increasing {frames : List Frame}
    (h : frames.Pairwise fun a b => a.offset ≤ b.offset) :
    (lastOfRuns frames).Pairwise fun a b => a.offset < b.offset := by
  fun_induction lastOfRuns frames with
  | case1 a b rest heq ih => exact ih h.of_cons
  | case2 a b rest hne ih =>
    refine .cons (fun frame hmem => ?_) (ih h.of_cons)
    have hlt : a.offset < b.offset :=
      UInt16.lt_of_le_of_ne (List.rel_of_pairwise_cons h List.mem_cons_self) hne
    have hle : b.offset ≤ frame.offset := by
      obtain rfl | hmem := List.mem_cons.mp ((lastOfRuns_sublist _).mem hmem)
      · exact UInt16.le_refl _
      · exact List.rel_of_pairwise_cons h.of_cons hmem
    exact UInt16.lt_of_lt_of_le hlt hle
  | case3 frames hshort =>
    match frames with
    | [] => exact .nil
    | [a] => exact List.pairwise_singleton ..
    | a :: b :: rest => exact absurd rfl (hshort a b rest)

theorem find?_lastOfRuns {frames : List Frame}
    (h : frames.Pairwise fun a b => a.offset ≤ b.offset) (offset : UInt16) :
    (lastOfRuns frames).find? (fun frame => frame.offset = offset) =
      (frames.filter fun frame => frame.offset = offset).getLast? := by
  fun_induction lastOfRuns frames with
  | case1 a b rest heq ih =>
    rw [ih h.of_cons]
    by_cases hb : b.offset = offset
    · simp [heq, hb]
    · simp [heq, hb]
  | case2 a b rest hne ih =>
    have hrest := ih h.of_cons
    by_cases ha : a.offset = offset
    · -- All frames after the first one are beyond the offset.
      have hnone : (b :: rest).filter (fun frame => frame.offset = offset) = [] := by
        rw [List.filter_eq_nil_iff]
        intro frame hmem hframe
        have hle : b.offset ≤ frame.offset := by
          obtain rfl | hmem := List.mem_cons.mp hmem
          · exact UInt16.le_refl _
          · exact List.rel_of_pairwise_cons h.of_cons hmem
        have hab := List.rel_of_pairwise_cons h List.mem_cons_self
        have hframe := of_decide_eq_true hframe
        exact hne (UInt16.le_antisymm hab (ha.trans hframe.symm ▸ hle))
      simp [ha, hnone]
    · simp [ha, hrest]
  | case3 frames hshort =>
    match frames with
    | [] => rfl
    | [a] => by_cases ha : a.offset = offset <;> simp [ha]
    | a :: b :: rest => exact absurd rfl (hshort a b rest)

/-- The table has the last of the frames at an offset. -/
theorem find?_selected {frames : List Frame} (h : firstDescent frames = none) {offset : UInt16}
    (hoffset : offset ≠ 0) :
    (selected frames).find? (fun frame => frame.offset = offset) =
      (frames.filter fun frame => frame.offset = offset).getLast? := by
  rw [selected, find?_lastOfRuns ((pairwise_of_firstDescent_eq_none h).filter _),
    List.filter_filter]
  congr 2
  funext frame
  by_cases hframe : frame.offset = offset <;> simp [hframe, hoffset]

theorem selected_increasing {frames : List Frame} (h : firstDescent frames = none) :
    (selected frames).Pairwise fun a b => a.offset < b.offset :=
  lastOfRuns_increasing ((pairwise_of_firstDescent_eq_none h).filter _)

/-- What an entry of the table says, with the delta in place of the offset. -/
def describeDelta? (entry : UInt16 × Frame) : Option FrameEntry :=
  entry.2.describe?.map fun described => { described with offset := entry.1.toNat }

/-- The delta of a frame after the previous one leads back to the frame's offset. -/
theorem exists_deltas_cons {previous : Option UInt16} {frame : Frame}
    (h : ∀ offset, previous = some offset → offset < frame.offset) (rest : List Frame) :
    ∃ delta, deltas previous (frame :: rest) = (delta, frame) :: deltas (some frame.offset) rest ∧
      (match previous with
        | none => delta.toNat
        | some previous => previous.toNat + delta.toNat + 1) = frame.offset.toNat := by
  cases previous with
  | none => exact ⟨frame.offset, rfl, rfl⟩
  | some offset =>
    refine ⟨frame.offset - offset - 1, rfl, ?_⟩
    have hlt := UInt16.lt_iff_toNat_lt.mp (h offset rfl)
    have hle : offset ≤ frame.offset := UInt16.le_of_lt (h offset rfl)
    have hsub := UInt16.toNat_sub_of_le _ _ hle
    have hone : (1 : UInt16) ≤ frame.offset - offset := by
      rw [UInt16.le_iff_toNat_le, hsub]
      exact Nat.sub_pos_of_lt hlt
    have hpred := UInt16.toNat_sub_of_le _ _ hone
    dsimp only
    rw [hpred, hsub]
    simp only [UInt16.toNat_ofNat]
    omega

theorem describe?_offset {frame : Frame} {entry : FrameEntry} (h : frame.describe? = some entry) :
    entry.offset = frame.offset.toNat := by
  simp only [Frame.describe?, Option.bind_eq_bind, Option.bind_eq_some_iff] at h
  obtain ⟨_, -, _, -, h⟩ := h
  cases h
  rfl

open Description in
/-- The offsets of frames that stand after the previous one are found from their deltas. -/
theorem describe?_of_deltas {previous : Option UInt16} {frames : List Frame}
    {entries : List FrameEntry}
    (hprevious : ∀ offset, previous = some offset → ∀ frame ∈ frames, offset < frame.offset)
    (hframes : frames.Pairwise fun a b => a.offset < b.offset)
    (h : (deltas previous frames).mapM describeDelta? = some entries) :
    frames.mapM Frame.describe? = some (placed (previous.map UInt16.toNat) entries) := by
  induction frames generalizing previous entries with
  | nil => cases previous <;> (cases h; rfl)
  | cons frame rest ih =>
    obtain ⟨delta, hdeltas, hdelta⟩ :=
      exists_deltas_cons (fun offset ho => hprevious offset ho frame List.mem_cons_self) rest
    rw [hdeltas, List.mapM_cons] at h
    simp only [Option.bind_eq_bind, Option.bind_eq_some_iff] at h
    obtain ⟨entry, hentry, others, hothers, h⟩ := h
    cases h
    obtain ⟨described, hdescribed, rfl⟩ := Option.map_eq_some_iff.mp hentry
    have hafter : ∀ offset, some frame.offset = some offset →
        ∀ other ∈ rest, offset < other.offset := by
      rintro _ ⟨⟩ other hmem
      exact List.rel_of_pairwise_cons hframes hmem
    have hrest := ih hafter hframes.of_cons hothers
    have hoffset := describe?_offset hdescribed
    rw [List.mapM_cons, hdescribed, hrest]
    cases previous <;> simp only [Option.map_none, Option.map_some, placed] at hdelta ⊢ <;>
      rw [hdelta, ← hoffset] <;> rfl

/-! ### Lowering -/

open Description

theorem denotes_verification (type : FieldType) :
    Denotes type.verification (Shows resolveType type.seen?) := by
  unfold FieldType.verification FieldType.seen?
  cases type.base? with
  | some base =>
    cases hint : base.isIntLike with
    | true =>
      simp only [hint, if_true]
      exact denotes_pure fun _ => ⟨.integer, rfl, rfl⟩
    | false =>
      simp only [hint, Bool.false_eq_true, if_false]
      exact fun _ _ _ _ h _ => absurd h gives_fail
  | none =>
    refine (denotes_addClass type.className).bind
      (fun _ => moves_bind (moves_report _) fun _ => moves_pure _) fun index => ?_
    intro pool pool' result constants h _ hclass
    rw [gives_report_bind, gives_pure] at h
    obtain ⟨rfl, -⟩ := h
    exact ⟨.object type.className, rfl, by rw [resolveType, hclass]; rfl⟩

theorem denotes_encode (delta : UInt16) (frame : Frame) :
    Denotes (frame.encode delta) (Shows resolveFrame (describeDelta? (delta, frame))) := by
  refine (denotes_traverse (fun type => (repeats_verification type).moves)
    denotes_verification _).bind
    (fun _ => ((repeats_traverse repeats_verification _).bind fun _ => repeats_pure _).moves)
    fun locals => ?_
  refine (denotes_traverse (fun type => (repeats_verification type).moves)
    denotes_verification _).bind
    (fun _ => moves_pure _) fun stack => denotes_pure fun constants => ?_
  rintro ⟨stackTypes, hstack, hstack'⟩ ⟨localTypes, hlocals, hlocals'⟩
  refine ⟨⟨delta.toNat, localTypes, stackTypes⟩, ?_, ?_⟩
  · simp [describeDelta?, Frame.describe?, hlocals, hstack]
  · simp [resolveFrame, hlocals', hstack']

theorem denotes_compress (frames : List Frame) :
    Denotes (compress frames)
      (Shows (fun constants entries => (entries.mapM (resolveFrame constants)).map (placed none))
        ((selected frames).mapM Frame.describe?)) := by
  unfold compress
  split
  · intro pool pool' entries constants h
    rw [gives_report_bind] at h
    exact absurd h gives_fail
  · next hascending =>
    have hentry : ∀ entry : UInt16 × Frame, Denotes (do
        Action.report (.frameEncoded entry.2.offset entry.1)
        entry.2.encode entry.1) (Shows resolveFrame (describeDelta? entry)) := by
      intro entry pool pool' result constants h
      rw [gives_report_bind] at h
      exact denotes_encode entry.1 entry.2 h
    intro pool pool' entries constants h hwithin
    obtain ⟨described, hdeltas, hentries⟩ := denotes_traverse
      (fun entry : UInt16 × Frame =>
        ((repeats_report _).bind fun _ => repeats_encode entry.1 entry.2).moves)
      hentry _ h hwithin
    refine ⟨placed none described,
      describe?_of_deltas (by simp) (selected_increasing hascending) hdeltas, ?_⟩
    dsimp only at hentries ⊢
    rw [hentries]
    rfl

end StackMap

end Classfile
