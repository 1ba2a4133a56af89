import Classfile.Proofs.Body.Layout
import Classfile.Proofs.Body.Verifier

/-!
# Bodies pass the verifier

A body that was built without allocating locals and without an overflow passes the linear verifier,
with the frames it recorded and in the pool as it is then. The invariant behind this ties the types
that run out of the last operation to the current frame, and the frame that each jump leaves to the
label it goes to, placed or not.
-/

namespace Classfile.Body

open Verifier

/-- A jump to the label has been made with these types, and every frame kept for it agrees. -/
def Knows (body : Body) (label : Label) (frame : Frame) : Prop :=
  (∀ placed, body.labels[label]? = some placed → frame.Agrees placed) ∧
  (body.labels[label]? = none →
    ∃ expected, body.pending[label]? = some expected ∧ frame.Agrees expected)

/-- The types at the end of the code are those of the current frame. Where nothing falls through, no
frame is recorded yet. -/
def Continues (body : Body) (running recorded : Option Frame) : Prop :=
  if body.reachable then
    ∃ here, arrive body.size running recorded = .ok here ∧ here.Agrees body.current
  else running = none ∧ recorded = none

theorem Knows.congr {body : Body} {label : Label} {a b : Frame} (h : body.Knows label a)
    (hab : a.Agrees b) : body.Knows label b := by
  refine ⟨fun placed hplaced => hab.symm.trans (h.1 placed hplaced), fun hnone => ?_⟩
  obtain ⟨expected, hexpected, hagrees⟩ := h.2 hnone
  exact ⟨expected, hexpected, hab.symm.trans hagrees⟩

/-- Placing a label keeps what jumps know, since its frame is the one they expect. -/
theorem Knows.marked {body : Body} {label target : Label} {frame left : Frame}
    (h : body.Knows target left) (hfresh : body.labels[label]? = none)
    (hpending : ∀ expected, body.pending[label]? = some expected → frame.Agrees expected) :
    (body.marked label frame).Knows target left := by
  obtain ⟨hplaced, hexpected⟩ := h
  rw [Knows, marked_labels, marked_pending]
  by_cases heq : label = target
  · subst heq
    obtain ⟨expected, hexpected, hleft⟩ := hexpected hfresh
    simpa using hleft.trans (hpending expected hexpected).symm
  · rw [if_neg heq, if_neg heq]
    exact ⟨hplaced, hexpected⟩

theorem Knows.expecting {body : Body} {label : Label} {left : Frame} (h : body.Knows label left)
    (target : Option Label) (frame : Frame) : (body.expecting target frame).Knows label left := by
  obtain ⟨hplaced, hexpected⟩ := h
  rw [Knows, expecting_labels]
  refine ⟨hplaced, fun hnone => ?_⟩
  obtain ⟨expected, hexpected, hagrees⟩ := hexpected hnone
  exact ⟨expected, expecting_pending_of_some hexpected, hagrees⟩

theorem knows_expecting {body : Body} {label : Label} {frame : Frame}
    (h : body.Admits frame label) :
    (body.expecting (some label) frame).Knows label frame := by
  rw [Knows, expecting_labels]
  refine ⟨h.1, fun hnone => ?_⟩
  cases hpending : body.pending[label]? with
  | none => exact ⟨frame, expecting_pending_self hnone hpending, Frame.Agrees.refl frame⟩
  | some expected =>
    exact ⟨expected, expecting_pending_of_some hpending, h.2 hnone expected hpending⟩

structure Sound (entry : Frame) (body : Body) (pool : Pool) : Prop where
  laid : body.WellLaid
  bounded : ∀ frame ∈ body.frames.toList, frame.offset.toNat ≤ body.size
  labels : ∀ (label : Label) frame, body.labels[label]? = some frame →
    ∃ found, recorded? entry body.frames.toList frame.offset.toNat = some found ∧
      frame.Agrees found
  typing : ∃ exits running,
    Typing pool (recorded? entry body.frames.toList) entry body.code.toList exits running ∧
    body.Continues running (recorded? entry body.frames.toList body.size) ∧
    ∀ exit ∈ exits, ∀ label, exit.1.operation.target? = some label → body.Knows label exit.2

namespace Sound

variable {entry : Frame} {body : Body} {pool : Pool}

theorem mono {later : Pool} (hgrows : pool.GrowsTo later) (h : Sound entry body pool) :
    Sound entry body later := by
  obtain ⟨exits, running, htyping, hcontinues, htargets⟩ := h.typing
  exact ⟨h.laid, h.bounded, h.labels, exits, running, htyping.mono hgrows, hcontinues, htargets⟩

theorem check_eq_ok (h : Sound entry body pool) :
    ∃ running, check pool entry body = .ok running := by
  obtain ⟨exits, running, htyping, -, htargets⟩ := h.typing
  refine ⟨running, htyping.foldlM_step ?_⟩
  intro exit hexit
  unfold checkTarget
  cases htarget : exit.1.operation.target? with
  | none => rfl
  | some label =>
    cases hplaced : body.labels[label]? with
    | none => simp [labelOffset?, hplaced]
    | some frame =>
      obtain ⟨found, hfound, hagrees⟩ := h.labels label frame hplaced
      have hleft := ((htargets exit hexit label htarget).1 frame hplaced).trans hagrees
      simp [labelOffset?, hplaced, hfound, hleft]

theorem start {type : MethodType} {flags : Flags .method} {owner : String}
    (h : Body.start type flags owner = .ok body) (pool : Pool) : Sound body.current body pool := by
  have hlaid := wellLaid_start h
  obtain ⟨_, -, hbody⟩ := bind_eq_ok h
  cases hbody
  refine ⟨hlaid, ?_, ?_, [], some _, .nil, ?_, ?_⟩
  · simp [Frame.entry]
  · simp
  · simp [Continues, size, arrive, Frame.Agrees.refl]
  · simp

/-- Where nothing falls through there is code already. -/
theorem size_ne_zero (h : Sound entry body pool) (hreach : body.reachable = false) :
    body.size ≠ 0 := by
  obtain ⟨exits, running, -, hcontinues, -⟩ := h.typing
  rw [Continues, hreach] at hcontinues
  intro hsize
  rw [hsize, recorded?_zero] at hcontinues
  exact absurd hcontinues.2 (by simp)

/-- A frame recorded at the end of the code is not seen by the operations before it. -/
theorem typing_push (h : Sound entry body pool) {exits : List (Placed × Frame)}
    {running : Option Frame} {frame : Frame} (hoffset : frame.offset.toNat = body.size)
    (htyping : Typing pool (recorded? entry body.frames.toList) entry body.code.toList exits
      running) :
    Typing pool (recorded? entry (body.frames.push frame).toList) entry body.code.toList exits
      running := by
  refine htyping.congr fun placed hmem => ?_
  have hlt := h.laid.offset_lt hmem
  rw [Array.toList_push, recorded?_append_of_ne (by omega)]

theorem bounded_push (h : Sound entry body pool) {frame : Frame}
    (hoffset : frame.offset.toNat = body.size) :
    ∀ recorded ∈ (body.frames.push frame).toList, recorded.offset.toNat ≤ body.size := by
  intro recorded hmem
  rw [Array.toList_push, List.mem_append, List.mem_singleton] at hmem
  obtain hmem | rfl := hmem
  · exact h.bounded recorded hmem
  · omega

theorem entered (h : Sound entry body pool)
    (hroom : body.reachable = false → body.size < 0x10000) : Sound entry body.entered pool := by
  cases hreach : body.reachable with
  | true =>
    rw [Body.entered, if_pos hreach]
    exact h
  | false =>
    have hsize := h.size_ne_zero hreach
    have hoffset := toNat_ofNat_size (hroom hreach)
    obtain ⟨exits, running, htyping, hcontinues, htargets⟩ := h.typing
    rw [Continues, hreach] at hcontinues
    obtain ⟨rfl, hnone⟩ := hcontinues
    rw [Body.entered, hreach]
    refine ⟨h.laid, h.bounded_push hoffset, ?_, exits, none, h.typing_push hoffset htyping, ?_,
      htargets⟩
    · intro label frame hlabel
      obtain ⟨found, hfound, hagrees⟩ := h.labels label frame hlabel
      have hne : body.size ≠ frame.offset.toNat := by
        intro heq
        rw [heq, hfound] at hnone
        cases hnone
      refine ⟨found, ?_, hagrees⟩
      simp only [Bool.false_eq_true, if_false, Array.toList_push]
      rw [recorded?_append_of_ne (by rwa [Frame.placedAt, hoffset]), hfound]
    · refine ⟨body.current.placedAt (UInt16.ofNat body.size), ?_, (Frame.agrees_placedAt ..).symm⟩
      simp only [Bool.false_eq_true, if_false, Array.toList_push]
      change arrive _ none (recorded? entry _ body.size) = _
      rw [recorded?_append hsize, if_pos (by rw [Frame.placedAt, hoffset])]
      rfl

theorem grow (h : Sound entry body pool) (hreach : body.reachable = true) {op : Operation}
    {frame : Frame} (heffect : op.effect pool body.current = .ok frame)
    (hknown : ∀ label, op.target? = some label → body.Knows label frame) :
    Sound entry { body.grown op frame with reachable := fallsThrough op } pool := by
  have hwidth := op.width_pos
  have hsize : ({ body.grown op frame with reachable := fallsThrough op } : Body).size =
      body.size + op.width := body.grown_size op frame
  obtain ⟨exits, running, htyping, hcontinues, htargets⟩ := h.typing
  rw [Continues, if_pos hreach] at hcontinues
  obtain ⟨here, harrive, hhere⟩ := hcontinues
  obtain ⟨left, hleft, hagrees⟩ := Operation.effect_agrees hhere.symm heffect
  have hcode : ({ body.grown op frame with reachable := fallsThrough op } : Body).code.toList =
      body.code.toList ++ [⟨body.size, op⟩] := Array.toList_push
  have hnone : recorded? entry body.frames.toList (body.size + op.width) = none := by
    refine recorded?_eq_none (by omega) fun recorded hmem => ?_
    have := h.bounded recorded hmem
    omega
  refine ⟨?_, ?_, h.labels, exits ++ [(⟨body.size, op⟩, left)],
    if fallsThrough op then some left else none, ?_, ?_, ?_⟩
  · rw [WellLaid, hcode, contiguous_append]
    exact ⟨h.laid, by rw [h.laid.size_eq, Nat.zero_add], trivial⟩
  · intro recorded hmem
    rw [hsize]
    exact Nat.le_trans (h.bounded recorded hmem) (by omega)
  · rw [hcode]
    exact .snoc htyping harrive hleft
  · rw [Continues, hsize]
    change if fallsThrough op then ∃ here, arrive _ _ (recorded? entry body.frames.toList _) = _ ∧ _
      else _ ∧ recorded? entry body.frames.toList _ = _
    rw [hnone]
    cases hfalls : fallsThrough op with
    | true => exact ⟨left, rfl, hagrees.symm⟩
    | false => exact ⟨rfl, rfl⟩
  · intro exit hmem label htarget
    rw [List.mem_append, List.mem_singleton] at hmem
    obtain hmem | rfl := hmem
    · exact htargets exit hmem label htarget
    · exact (hknown label htarget).congr hagrees

theorem mark (h : Sound entry body pool) {label : Label} {frame : Frame}
    (hfresh : body.labels[label]? = none)
    (hfall : body.reachable = true → body.current.Agrees frame)
    (hpending : ∀ expected, body.pending[label]? = some expected → frame.Agrees expected)
    (hoffset : frame.offset.toNat = body.size) : Sound entry (body.marked label frame) pool := by
  obtain ⟨exits, running, htyping, hcontinues, htargets⟩ := h.typing
  -- Frames recorded here before agree with the new one.
  have hrecorded : ∀ found, recorded? entry body.frames.toList body.size = some found →
      found.Agrees frame := by
    intro found hfound
    rw [Continues, hfound] at hcontinues
    split at hcontinues
    · next hreach =>
      obtain ⟨here, harrive, hhere⟩ := hcontinues
      exact arrive_recorded harrive ▸ hhere.trans (hfall hreach)
    · cases hcontinues.2
  obtain ⟨found, hfound, hagrees⟩ : ∃ found,
      recorded? entry (body.frames.push frame).toList body.size = some found ∧
        found.Agrees frame := by
    by_cases hsize : body.size = 0
    · rw [hsize] at hrecorded ⊢
      exact ⟨entry, recorded?_zero, hrecorded entry recorded?_zero⟩
    · rw [Array.toList_push, recorded?_append hsize, if_pos hoffset]
      exact ⟨frame, rfl, Frame.Agrees.refl frame⟩
  refine ⟨h.laid, h.bounded_push hoffset, ?_, exits, running, h.typing_push hoffset htyping, ?_, ?_⟩
  · intro target placed hplaced
    rw [marked_labels] at hplaced
    split at hplaced
    · cases hplaced
      exact ⟨found, hoffset ▸ hfound, hagrees.symm⟩
    · obtain ⟨old, hold, hsame⟩ := h.labels target placed hplaced
      by_cases hhere : placed.offset.toNat = body.size
      · rw [hhere] at hold ⊢
        exact ⟨found, hfound, (hsame.trans (hrecorded old hold)).trans hagrees.symm⟩
      · refine ⟨old, ?_, hsame⟩
        change recorded? entry (body.frames.push frame).toList _ = _
        rw [Array.toList_push, recorded?_append_of_ne (by omega), hold]
  · change ∃ here,
      arrive _ running (recorded? entry (body.frames.push frame).toList body.size) = _ ∧ _
    rw [hfound]
    refine ⟨found, ?_, hagrees⟩
    cases running with
    | none => rfl
    | some running =>
      rw [Continues] at hcontinues
      split at hcontinues
      · next hreach =>
        obtain ⟨here, harrive, hhere⟩ := hcontinues
        have hrunning := (arrive_running harrive).trans (hhere.trans (hfall hreach))
        rw [arrive, if_pos (hrunning.trans hagrees.symm)]
      · cases hcontinues.1
  · intro exit hmem target htarget
    exact (htargets exit hmem target htarget).marked hfresh hpending

theorem expecting (h : Sound entry body pool) (target : Option Label) (frame : Frame) :
    Sound entry (body.expecting target frame) pool := by
  obtain ⟨exits, running, htyping, hcontinues, htargets⟩ := h.typing
  have hknows : ∀ exit ∈ exits, ∀ label, exit.1.operation.target? = some label →
      (body.expecting target frame).Knows label exit.2 :=
    fun exit hmem label htarget => (htargets exit hmem label htarget).expecting target frame
  obtain ⟨pending, hbody⟩ := body.exists_expecting_eq target frame
  rw [hbody] at hknows ⊢
  exact ⟨h.laid, h.bounded, h.labels, exits, running, htyping, hcontinues, hknows⟩

theorem advance (h : Sound entry body pool) {call : Call} {next : Body}
    (hadvance : body.Advance pool call next) (hlocal : ∀ type, call ≠ .allocLocal type) :
    Sound entry next pool := by
  cases hadvance with
  | @push instruction frame heffect hroom hfits =>
    have heffect' : (Operation.plain instruction).effect pool body.entered.current = .ok frame := by
      rwa [entered_current]
    have hgrown := (h.entered hroom).grow body.entered_reachable heffect'
      (by simp [Operation.target?])
    simpa [grown, raised, fallsThrough] using hgrown
  | @branch b frame heffect hadmits hroom hfits =>
    have hexpecting := h.expecting b.target? frame
    have hentered := hexpecting.entered (by simpa using hroom)
    have heffect' : (Operation.branch b).effect pool
        (body.expecting b.target? frame).entered.current = .ok frame := by
      rwa [entered_current, expecting_current]
    refine hentered.grow (entered_reachable _) heffect' fun label htarget => ?_
    have hknows := knows_expecting (hadmits label htarget)
    rw [Operation.target?] at htarget
    rw [Knows, entered_labels, entered_pending, htarget]
    exact hknows
  | mark hcall horigin hfresh hfall hpending hroom =>
    refine h.mark hfresh (fun hreach => (hfall hreach).trans (Frame.agrees_placedAt ..)) ?_ ?_
    · intro expected hexpected
      exact (Frame.agrees_placedAt ..).symm.trans (hpending expected hexpected)
    · exact toNat_ofNat_size hroom
  | allocLocal => exact absurd rfl (hlocal _)
  | freshLabel => exact ⟨h.laid, h.bounded, h.labels, h.typing⟩
  | addStackMap => exact ⟨h.laid, h.bounded, h.labels, h.typing⟩
  | addConstant => exact h

theorem step {step : Run.Step (Body × Pool) Call} (h : Sound entry step.before.1 step.before.2)
    (hfits : ¬ overflows step) (hlocal : ∀ type, step.call ≠ .allocLocal type) :
    Sound entry (step.after Call.run).1 (step.after Call.run).2 := by
  refine mono (growsTo_run step.call step.before) ?_
  obtain hadvance | hsame := advance_or_unchanged step hfits
  · exact h.advance hadvance hlocal
  · rwa [hsame]

end Sound

/-- **Type soundness.** After calls of which none allocates a local variable and none runs into an
overflow, the body passes the verifier, in the pool as it is then. -/
theorem check_final {type : MethodType} {flags : Flags .method} {owner : String} {body : Body}
    (hstart : start type flags owner = .ok body) (pool : Pool) (calls : List Call)
    (hlocals : ∀ type, .allocLocal type ∉ calls)
    (hfits : ∀ step ∈ Run.steps Call.run calls (body, pool), ¬ overflows step) :
    ∃ running, check (Run.final Call.run calls (body, pool)).2 (.entry type flags owner)
      (Run.final Call.run calls (body, pool)).1 = .ok running := by
  have hsound := Run.state_invariant Call.run (P := fun s => Sound body.current s.1 s.2)
    (Q := fun step => ¬ overflows step ∧ ∀ type, step.call ≠ .allocLocal type)
    (fun step hbefore hstep => hbefore.step hstep.1 hstep.2) (Sound.start hstart pool)
    fun step hmem => ⟨hfits step hmem, fun type heq => hlocals type (heq ▸ Run.call_mem _ hmem)⟩
  rw [← (start_eq_ok hstart).1]
  exact hsound.check_eq_ok

/-- A loop left by a forward jump, with a refused call and code that is not reached from above. -/
def loopCalls : List Call :=
  [.addConstant (.integer 7), .push (.loadConstant ⟨1⟩), .branch (.ifZero .eq ⟨0⟩), .place ⟨1⟩,
    .push (.increment 0 (-1)), .push (.load .int 0), .branch (.ifZero .ne ⟨1⟩), .push .pop,
    .branch (.goto ⟨0⟩), .push (.smallInt ⟨3, by decide⟩), .branch (.leave none),
    .place ⟨0⟩, .branch (.leave none)]

theorem check_final_loop : ∃ body running,
    start ⟨[.int], none⟩ (.truncate .method 0x0008) "Hi" = .ok body ∧
    (∀ step ∈ Run.steps Call.run loopCalls (body, .empty), ¬ overflows step) ∧
    (Run.final Call.run loopCalls (body, .empty)).1.code.toList =
      [⟨0, .plain (.loadConstant ⟨1⟩)⟩, ⟨2, .branch (.ifZero .eq ⟨0⟩)⟩,
        ⟨5, .plain (.increment 0 (-1))⟩, ⟨8, .plain (.load .int 0)⟩,
        ⟨9, .branch (.ifZero .ne ⟨1⟩)⟩, ⟨12, .branch (.goto ⟨0⟩)⟩,
        ⟨15, .plain (.smallInt ⟨3, by decide⟩)⟩, ⟨16, .branch (.leave none)⟩,
        ⟨17, .branch (.leave none)⟩] ∧
    (Run.final Call.run loopCalls (body, .empty)).1.frames.toList =
      [⟨0, #[.int], []⟩, ⟨5, #[.int], []⟩, ⟨15, #[.int], []⟩, ⟨17, #[.int], []⟩] ∧
    check (Run.final Call.run loopCalls (body, .empty)).2
      (.entry ⟨[.int], none⟩ (.truncate .method 0x0008) "Hi")
      (Run.final Call.run loopCalls (body, .empty)).1 = .ok running := by
  obtain ⟨body, hstart, hfits, hcode, hframes⟩ : ∃ body,
      start ⟨[.int], none⟩ (.truncate .method 0x0008) "Hi" = .ok body ∧
      (∀ step ∈ Run.steps Call.run loopCalls (body, .empty), ¬ overflows step) ∧
      (Run.final Call.run loopCalls (body, .empty)).1.code.toList = _ ∧
      (Run.final Call.run loopCalls (body, .empty)).1.frames.toList = _ :=
    ⟨_, rfl, by decide, rfl, rfl⟩
  obtain ⟨running, h⟩ := check_final hstart .empty loopCalls (by simp [loopCalls]) hfits
  exact ⟨body, running, hstart, hfits, hcode, hframes, h⟩

end Classfile.Body
