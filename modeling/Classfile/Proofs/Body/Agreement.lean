import Classfile.Proofs.Body.Refusal
import Classfile.Proofs.Body.Table

/-!
# All ways to a label

A label is reached by jumps, before and after it is placed, and by falling through where it is
placed. All of them bring the types that are recorded for the label. A body only remembers the first
jump to a label without a place. The invariant says where each remembered frame comes from, and that
no accepted jump disagrees with what is remembered.
-/

namespace Classfile.Body

open Classfile.Action

/-! ### What the steps of a run tell -/

/-- A jump to the label was accepted, and left with the frame. -/
def Jumped (steps : List (Run.Step (Body × Pool) Call)) (label : Label) (left : Frame) : Prop :=
  ∃ step ∈ steps, step.Accepted Call.run ∧ ∃ b, step.call = .branch b ∧ b.target? = some label ∧
    b.effect step.before.1.current = .ok left

/-- The label was placed. -/
def Settled (steps : List (Run.Step (Body × Pool) Call)) (label : Label) : Prop :=
  ∃ step ∈ steps, step.Accepted Call.run ∧ step.call.label? = some label

/-- Whether an accepted call lets the next operation be reached from above. Calls that neither
append an operation nor place a label do not say. -/
def Call.falls? : Call → Option Bool
  | push _ | place _ | placeFrom _ _ => some true
  | branch b => some !b.isUnconditional
  | _ => none

/-- The next operation can be reached by falling through. -/
def fallsAfter (steps : List (Run.Step (Body × Pool) Call)) : Bool :=
  steps.foldl (fun falls step =>
    if step.Accepted Call.run then step.call.falls?.getD falls else falls) true

section Steps

variable {made more : List (Run.Step (Body × Pool) Call)} {step : Run.Step (Body × Pool) Call}
  {label : Label} {left : Frame}

theorem jumped_append : Jumped (made ++ [step]) label left ↔
    Jumped made label left ∨ step.Accepted Call.run ∧ ∃ b, step.call = .branch b ∧
      b.target? = some label ∧ b.effect step.before.1.current = .ok left := by
  simp [Jumped, or_and_right, exists_or]

theorem settled_append : Settled (made ++ [step]) label ↔
    Settled made label ∨ step.Accepted Call.run ∧ step.call.label? = some label := by
  simp [Settled, or_and_right, exists_or]

theorem fallsAfter_append : fallsAfter (made ++ [step]) =
    if step.Accepted Call.run then step.call.falls?.getD (fallsAfter made)
    else fallsAfter made := by
  simp [fallsAfter]

theorem fallsAfter_append_of_forall
    (h : ∀ other ∈ more, other.Accepted Call.run → other.call.falls? = none) :
    fallsAfter (made ++ more) = fallsAfter made := by
  induction more generalizing made with
  | nil => rw [List.append_nil]
  | cons step rest ih =>
    rw [List.append_cons, ih fun other hmem => h other (List.mem_cons_of_mem _ hmem),
      fallsAfter_append]
    split
    · next haccepted => rw [h step List.mem_cons_self haccepted, Option.getD_none]
    · rfl

theorem not_fallsAfter_of_jump {b : Branch} (hstep : step.Accepted Call.run)
    (hcall : step.call = .branch b) (hjump : b.isUnconditional = true)
    (h : ∀ other ∈ more, other.Accepted Call.run → other.call.falls? = none) :
    fallsAfter (made ++ step :: more) = false := by
  rw [List.append_cons, fallsAfter_append_of_forall h, fallsAfter_append, if_pos hstep, hcall,
    Call.falls?, Option.getD_some, hjump]
  rfl

end Steps

/-! ### Accepted calls -/

section Advance

variable {body next : Body} {pool : Pool} {call : Call} {label : Label}

theorem Advance.reachable_eq (h : body.Advance pool call next) :
    next.reachable = call.falls?.getD body.reachable := by
  cases h with
  | push => exact entered_reachable _
  | mark hcall => obtain rfl | ⟨parent, rfl⟩ := hcall <;> rfl
  | _ => rfl

/-- A frame that is expected was left by this jump or was expected before. -/
theorem Advance.pending_cases {expected : Frame} (h : body.Advance pool call next)
    (hpending : next.pending[label]? = some expected) :
    body.pending[label]? = some expected ∨ ∃ b, call = .branch b ∧ b.target? = some label ∧
      b.effect body.current = .ok expected := by
  cases h with
  | push => exact .inl (by simpa [grown, raised] using hpending)
  | @branch b frame heffect =>
    have hfound : (body.expecting b.target? frame).pending[label]? = some expected := by
      simpa [grown, raised] using hpending
    apply (expecting_pending_cases hfound).imp_right
    rintro ⟨htarget, rfl⟩
    exact ⟨b, rfl, htarget, heffect⟩
  | mark hcall =>
    rw [marked_pending] at hpending
    split at hpending
    · cases hpending
    · exact .inl hpending
  | _ => exact .inl hpending

end Advance

/-! ### Runs -/

/-- What a body knows about its labels is what the steps tell. -/
structure Attested (made : List (Run.Step (Body × Pool) Call)) (body : Body) : Prop where
  jumps : ∀ label left, Jumped made label left → body.Knows label left
  pending : ∀ (label : Label) expected, body.pending[label]? = some expected →
    Jumped made label expected
  labels : ∀ label, body.labels[label]?.isSome ↔ Settled made label
  reachable : body.reachable = fallsAfter made

namespace Attested

variable {made : List (Run.Step (Body × Pool) Call)} {step : Run.Step (Body × Pool) Call}
  {body : Body} {label : Label}

theorem start {type : MethodType} {flags : Flags .method} {owner : String}
    (h : start type flags owner = .ok body) : Attested [] body := by
  obtain ⟨_, -, hbody⟩ := bind_eq_ok h
  cases hbody
  refine ⟨fun label left hjumped => ?_, fun label expected hpending => ?_, fun label => ?_, rfl⟩
  · obtain ⟨_, hmem, -⟩ := hjumped
    cases hmem
  · rw [Std.TreeMap.getElem?_emptyc] at hpending
    cases hpending
  · simp [Settled]

theorem accepted (h : Attested made step.before.1) (haccepted : step.Accepted Call.run) :
    Attested (made ++ [step]) (step.after Call.run).1 := by
  have hadvance := advance_of_accepted haccepted
  refine ⟨fun label left hjumped => ?_, fun label expected hpending => ?_, fun label => ?_, ?_⟩
  · obtain hjumped | ⟨-, b, hcall, htarget, hleft⟩ := jumped_append.mp hjumped
    · exact (h.jumps label left hjumped).advance hadvance
    · rw [hcall] at hadvance
      exact hadvance.knows htarget hleft
  · rw [jumped_append]
    obtain hpending | hjump := hadvance.pending_cases hpending
    · exact .inl (h.pending label expected hpending)
    · exact .inr ⟨haccepted, hjump⟩
  · rw [settled_append, ← h.labels, and_iff_right haccepted]
    refine ⟨hadvance.isSome_labels, ?_⟩
    rintro (hsome | hlabel)
    · obtain ⟨frame, hframe⟩ := Option.isSome_iff_exists.mp hsome
      rw [hadvance.labels hframe, Option.isSome_some]
    · rw [(hadvance.placed hlabel).1, Option.isSome_some]
  · rw [fallsAfter_append, if_pos haccepted, ← h.reachable]
    exact hadvance.reachable_eq

theorem refused (h : Attested made step.before.1) (hrefused : ¬ step.Accepted Call.run)
    (hfits : ¬ overflows step) : Attested (made ++ [step]) (step.after Call.run).1 := by
  rw [unchanged_of_refused hrefused hfits]
  refine ⟨fun label left => ?_, fun label expected => ?_, fun label => ?_, ?_⟩
  · rw [jumped_append, or_iff_left fun hstep => hrefused hstep.1]
    exact h.jumps label left
  · rw [jumped_append, or_iff_left fun hstep => hrefused hstep.1]
    exact h.pending label expected
  · rw [settled_append, or_iff_left fun hstep => hrefused hstep.1]
    exact h.labels label
  · rw [fallsAfter_append, if_neg hrefused]
    exact h.reachable

theorem final {s : Body × Pool} {calls : List Call} (hstart : Attested [] s.1)
    (hfits : ∀ step ∈ Run.steps Call.run calls s, ¬ overflows step) :
    Attested (Run.steps Call.run calls s) (Run.final Call.run calls s).1 := by
  refine Run.invariant Call.run (Q := fun step => ¬ overflows step)
    (P := fun made now => Attested made now.1) (fun made step hmade hstep => ?_) hstart hfits
  by_cases haccepted : step.Accepted Call.run
  · exact hmade.accepted haccepted
  · exact hmade.refused haccepted hstep

end Attested

/-! ### Labels that cannot be placed -/

/-- Frames are only found to differ between falling through and a jump: where nothing falls through,
a label takes the frame that its jumps expect. -/
theorem fails_place_incompatible_iff {body next : Body} {label target : Label}
    {found expected : Frame} :
    Fails (place label) body (.incompatibleFrames target found expected) next ↔
      (body.labels[label]? = none ∧ body.reachable = true ∧
        body.pending[label]? = some expected ∧ ¬ body.current.Agrees expected ∧
        target = label ∧ found = body.current) ∧ body = next := by
  rw [place, fails_gets_bind, fails_placeWith_iff]
  refine and_congr_left fun _ => ⟨fun h => ?_, ?_⟩
  · cases h with
    | falling hfresh hreach hdiffers =>
      refine absurd ?_ hdiffers
      simp only [hreach, if_true]
      split <;> exact Frame.Agrees.refl _
    | jumping hfresh hfall hpending hdiffers =>
      simp only [hpending] at hdiffers ⊢
      cases hreach : body.reachable with
      | true => simp_all
      | false => simp [hreach, Frame.Agrees.refl] at hdiffers
  · rintro ⟨hfresh, hreach, hpending, hdiffers, rfl, rfl⟩
    have hmisplaced : Misplaced body target body.current
        (.incompatibleFrames target body.current expected) :=
      .jumping hfresh (fun _ => Frame.Agrees.refl _) hpending hdiffers
    simpa [hpending, hreach] using hmisplaced

theorem result_place_eq_incompatible_iff {s : Body × Pool} {label target : Label}
    {found expected : Frame} :
    (Call.run (.place label) s).result = .error (.incompatibleFrames target found expected) ↔
      s.1.labels[label]? = none ∧ s.1.reachable = true ∧ s.1.pending[label]? = some expected ∧
        ¬ s.1.current.Agrees expected ∧ target = label ∧ found = s.1.current := by
  constructor
  · intro h
    have hfails : Fails (Call.run (.place label)) s _ _ := ⟨h, rfl⟩
    exact (fails_place_incompatible_iff.mp (fails_onFst.mp (fails_bind_pure.mp hfails)).1).1
  · intro h
    have hplace : Fails (place label) s.1 (.incompatibleFrames target found expected) s.1 :=
      fails_place_incompatible_iff.mpr ⟨h, rfl⟩
    exact (fails_bind_pure.mpr (fails_onFst.mpr ⟨hplace, rfl⟩ : Fails _ s _ s)).1

theorem Attested.incompatible_iff {made : List (Run.Step (Body × Pool) Call)} {s : Body × Pool}
    (h : Attested made s.1) {label : Label} :
    (∃ target found expected, (Call.run (.place label) s).result =
        .error (.incompatibleFrames target found expected)) ↔
      ¬ Settled made label ∧ fallsAfter made = true ∧
        ∃ left, Jumped made label left ∧ ¬ left.Agrees s.1.current := by
  simp only [result_place_eq_incompatible_iff, ← h.labels, ← h.reachable, Bool.not_eq_true,
    Option.isSome_eq_false_iff, Option.isNone_iff_eq_none]
  constructor
  · rintro ⟨target, found, expected, hfresh, hreach, hpending, hdiffers, -, -⟩
    exact ⟨hfresh, hreach, expected, h.pending label expected hpending,
      fun hagrees => hdiffers hagrees.symm⟩
  · rintro ⟨hfresh, hreach, left, hjumped, hdiffers⟩
    obtain ⟨expected, hpending, hexpected⟩ := (h.jumps label left hjumped).2 hfresh
    refine ⟨label, s.1.current, expected, hfresh, hreach, hpending, fun hagrees => ?_, rfl, rfl⟩
    exact hdiffers (hexpected.trans hagrees.symm)

/-! ### Single steps of a run -/

section Split

variable {s : Body × Pool} {calls : List Call} {label : Label}

/-- Labels keep their frames. -/
theorem labels_final_of_fits {frame : Frame} (h : s.1.labels[label]? = some frame)
    (hfits : ∀ step ∈ Run.steps Call.run calls s, ¬ overflows step) :
    (Run.final Call.run calls s).1.labels[label]? = some frame := by
  refine Run.state_invariant Call.run (Q := fun step => ¬ overflows step)
    (P := fun now => now.1.labels[label]? = some frame) (fun step hbefore hstep => ?_) h hfits
  obtain hadvance | hsame := advance_or_unchanged step hstep
  · exact hadvance.labels hbefore
  · rw [hsame]
    exact hbefore

variable {before after : List (Run.Step (Body × Pool) Call)} {step : Run.Step (Body × Pool) Call}

/-- What the steps before one tell is what the body knows when that one is made. -/
theorem attested_before (hstart : Attested [] s.1)
    (hfits : ∀ step ∈ Run.steps Call.run calls s, ¬ overflows step)
    (hsplit : Run.steps Call.run calls s = before ++ step :: after) :
    Attested before step.before.1 := by
  obtain ⟨first, _, rfl, hstate, -⟩ := Run.exists_of_steps_eq Call.run hsplit
  rw [hstate]
  exact .final hstart fun other hmem => hfits other (by simp [hsplit, hmem])

theorem labels_after {frame : Frame}
    (hfits : ∀ step ∈ Run.steps Call.run calls s, ¬ overflows step)
    (hsplit : Run.steps Call.run calls s = before ++ step :: after)
    (h : (step.after Call.run).1.labels[label]? = some frame) :
    (∀ later ∈ after, later.before.1.labels[label]? = some frame) ∧
      (Run.final Call.run calls s).1.labels[label]? = some frame := by
  obtain ⟨_, second, -, -, rfl, hfinal⟩ := Run.exists_of_steps_eq Call.run hsplit
  have hsecond : ∀ later ∈ Run.steps Call.run second (step.after Call.run), ¬ overflows later :=
    fun later hmem => hfits later (by simp [hsplit, hmem])
  refine ⟨fun later hlater => ?_, ?_⟩
  · obtain ⟨earlier, others, hlater⟩ := List.append_of_mem hlater
    obtain ⟨third, _, rfl, hstate, -⟩ := Run.exists_of_steps_eq Call.run hlater
    rw [hstate]
    exact labels_final_of_fits h fun other hmem => hsecond other (by simp [hlater, hmem])
  · rw [hfinal]
    exact labels_final_of_fits h hsecond

/-- A label that is placed has a frame from then on. -/
theorem exists_frame_of_placed (hstart : Attested [] s.1)
    (hfits : ∀ step ∈ Run.steps Call.run calls s, ¬ overflows step)
    (hsplit : Run.steps Call.run calls s = before ++ step :: after)
    (haccepted : step.Accepted Call.run) (hlabel : step.call.label? = some label) :
    ∃ frame, frame.offset.toNat = step.before.1.size ∧
      (fallsAfter before = true → step.before.1.current.Agrees frame) ∧
      (∀ later ∈ after, later.before.1.labels[label]? = some frame) ∧
      (Run.final Call.run calls s).1.labels[label]? = some frame := by
  have hadvance := advance_of_accepted haccepted
  obtain ⟨hframe, hoffset, hstays, -⟩ := hadvance.placed hlabel
  refine ⟨_, hoffset, fun hfalls => ?_, labels_after hfits hsplit hframe⟩
  have hreach := (attested_before hstart hfits hsplit).reachable.trans hfalls
  have hextends := (hadvance.extends hreach hstays).2
  rw [Call.local?_of_label? hlabel] at hextends
  exact hextends.agrees_iff.mpr rfl

theorem incompatible_iff_of_split (hstart : Attested [] s.1)
    (hfits : ∀ step ∈ Run.steps Call.run calls s, ¬ overflows step)
    (hsplit : Run.steps Call.run calls s = before ++ step :: after)
    (hcall : step.call = .place label) :
    (∃ target found expected, (step.outcome Call.run).result =
        .error (.incompatibleFrames target found expected)) ↔
      ¬ Settled before label ∧ fallsAfter before = true ∧
        ∃ left, Jumped before label left ∧ ¬ left.Agrees step.before.1.current := by
  rw [Run.Step.outcome, hcall]
  exact (attested_before hstart hfits hsplit).incompatible_iff

end Split

/-- **All ways to a label.** In a run without an overflow, every accepted jump to a label that is
placed leaves with the types recorded for the label, whether the jump or the label came first. The
frame of a label stands where it was placed, has the types that were current there if the label was
reached by falling through, and never changes. A label is refused because its frames differ exactly
if it has no place yet, is reached by falling through, and a jump to it left with other types. So
that does not happen directly after a jump that is always taken, or a return. -/
theorem agrees_of_reached {type : MethodType} {flags : Flags .method} {owner : String} {body : Body}
    (hstart : start type flags owner = .ok body) (pool : Pool) (calls : List Call)
    (hfits : ∀ step ∈ Run.steps Call.run calls (body, pool), ¬ overflows step) :
    let steps := Run.steps Call.run calls (body, pool)
    let built := (Run.final Call.run calls (body, pool)).1
    (∀ label left frame, Jumped steps label left → built.labels[label]? = some frame →
      left.Agrees frame) ∧
    (∀ (before after : List (Run.Step (Body × Pool) Call)) (placement : Run.Step (Body × Pool) Call)
        (label : Label), steps = before ++ placement :: after →
      placement.Accepted Call.run → placement.call.label? = some label →
      ∃ frame : Frame, frame.offset.toNat = placement.before.1.size ∧
        (fallsAfter before = true → placement.before.1.current.Agrees frame) ∧
        (∀ later ∈ after, later.before.1.labels[label]? = some frame) ∧
        built.labels[label]? = some frame) ∧
    (∀ (before after : List (Run.Step (Body × Pool) Call)) (step : Run.Step (Body × Pool) Call)
        (label : Label), steps = before ++ step :: after → step.call = .place label →
      ((∃ target found expected, (step.outcome Call.run).result =
          .error (.incompatibleFrames target found expected)) ↔
        ¬ Settled before label ∧ fallsAfter before = true ∧
          ∃ left, Jumped before label left ∧ ¬ left.Agrees step.before.1.current)) ∧
    ∀ (before between after : List (Run.Step (Body × Pool) Call))
        (jump step : Run.Step (Body × Pool) Call) (b : Branch) (label : Label),
      steps = before ++ jump :: (between ++ step :: after) → jump.Accepted Call.run →
      jump.call = .branch b → b.isUnconditional = true →
      (∀ other ∈ between, other.Accepted Call.run → other.call.falls? = none) →
      step.call = .place label →
      ∀ target found expected, (step.outcome Call.run).result ≠
        .error (.incompatibleFrames target found expected) := by
  intro steps built
  have hbody : Attested [] body := .start hstart
  refine ⟨fun label left frame hjumped => ?_, fun before after placement label hsplit => ?_,
    fun before after step label hsplit => ?_, ?_⟩
  · have hfinal : Attested steps built := .final hbody hfits
    exact (hfinal.jumps label left hjumped).1 frame
  · exact exists_frame_of_placed hbody hfits hsplit
  · exact incompatible_iff_of_split hbody hfits hsplit
  · intro before between after jump step b label hsplit hjump hbranch huncond hbetween hcall
      target found expected hresult
    rw [← List.cons_append, ← List.append_assoc] at hsplit
    have hfalls := ((incompatible_iff_of_split hbody hfits hsplit hcall).mp
      ⟨target, found, expected, hresult⟩).2.1
    rw [not_fallsAfter_of_jump hjump hbranch huncond hbetween] at hfalls
    cases hfalls

/-- Two branches with a value each, which meet at the second label. The first label is refused while
the value of the first branch is there, and placed after the jump. -/
def ifElseCalls : List Call :=
  [.push (.load .int 0), .branch (.ifZero .eq ⟨0⟩), .push (.pushByte 4), .place ⟨0⟩,
    .branch (.goto ⟨1⟩), .place ⟨0⟩, .push (.pushByte 5), .place ⟨1⟩, .push .pop,
    .branch (.leave none)]

theorem agrees_of_reached_ifElse : ∃ body before placement after refused left frame,
    start ⟨[.int], none⟩ (.truncate .method 0x0008) "Hi" = .ok body ∧
    let steps := Run.steps Call.run ifElseCalls (body, .empty)
    (∀ step ∈ steps, ¬ overflows step) ∧ steps = before ++ placement :: after ∧
    placement.call = .place ⟨1⟩ ∧ fallsAfter before = true ∧ Jumped before ⟨1⟩ left ∧
    (Run.final Call.run ifElseCalls (body, .empty)).1.labels[Label.mk 1]? = some frame ∧
    left.Agrees frame ∧ placement.before.1.current.Agrees frame ∧
    steps[3]? = some refused ∧ refused.call = .place ⟨0⟩ ∧ ¬ refused.Accepted Call.run ∧
    ∃ left, Jumped (steps.take 3) ⟨0⟩ left ∧ ¬ left.Agrees refused.before.1.current := by
  have hrun : ∃ body placement jump refused left found expected,
      start ⟨[.int], none⟩ (.truncate .method 0x0008) "Hi" = .ok body ∧
      let steps := Run.steps Call.run ifElseCalls (body, .empty)
      (∀ step ∈ steps, ¬ overflows step) ∧
      steps[7]? = some placement ∧ placement.call = .place ⟨1⟩ ∧
      placement.Accepted Call.run ∧ fallsAfter (steps.take 7) = true ∧
      (steps.take 7)[4]? = some jump ∧ jump.call = .branch (.goto ⟨1⟩) ∧
      jump.Accepted Call.run ∧ (Branch.goto ⟨1⟩).effect jump.before.1.current = .ok left ∧
      steps[3]? = some refused ∧ refused.call = .place ⟨0⟩ ∧
      (refused.outcome Call.run).result = .error (.incompatibleFrames ⟨0⟩ found expected) :=
    ⟨_, _, _, _, _, _, _, rfl, by decide, rfl, rfl, ⟨_, rfl⟩, by decide, rfl, rfl, ⟨_, rfl⟩, rfl,
      rfl, rfl, rfl⟩
  obtain ⟨body, placement, jump, refused, left, found, expected, hstart, hfits, hplacement, hplace,
    haccepted, hfalls, hjump, hgoto, htaken, hleft, hrefused, hcall, hresult⟩ := hrun
  obtain ⟨hagrees, hplaced, hincompatible, -⟩ :=
    agrees_of_reached hstart .empty ifElseCalls hfits
  have hsplit := Run.eq_append_of_getElem? hplacement
  have hmem := List.mem_of_getElem? hjump
  have hjumped : ∃ b, jump.call = .branch b ∧ b.target? = some ⟨1⟩ ∧
      b.effect jump.before.1.current = .ok left := ⟨_, hgoto, rfl, hleft⟩
  obtain ⟨frame, -, hcurrent, -, hframe⟩ :=
    hplaced _ _ placement ⟨1⟩ hsplit haccepted (by rw [hplace]; rfl)
  obtain ⟨-, -, hreason⟩ :=
    (hincompatible _ _ refused ⟨0⟩ (Run.eq_append_of_getElem? hrefused) hcall).mp
      ⟨_, _, _, hresult⟩
  have hnot : ¬ refused.Accepted Call.run := by
    rintro ⟨reply, hreply⟩
    rw [hresult] at hreply
    cases hreply
  exact ⟨body, _, placement, _, refused, left, frame, hstart, hfits, hsplit, hplace,
    hfalls, ⟨jump, hmem, htaken, hjumped⟩, hframe,
    hagrees ⟨1⟩ left frame ⟨jump, List.mem_of_mem_take hmem, htaken, hjumped⟩ hframe,
    hcurrent hfalls, hrefused, hcall, hnot, hreason⟩

end Classfile.Body
