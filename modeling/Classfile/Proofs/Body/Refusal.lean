import Classfile.Proofs.Body.Consistency

/-!
# Refused calls

An operation or a label that does not fit in is refused before anything is changed, so a run goes on
as if it had not been tried. Limits are met later: by then a jump may have left its frame at its
label, and an operation or a local variable may be there already. Here is said what stays.
-/

namespace Classfile

/-- An operation cannot be described, or a label cannot be placed or reached like this. -/
def Error.isRejection : Error → Bool
  | invalidOperation _ _ | incompatibleFrames _ _ _ | duplicateLabel _ | unplacedLabel _ => true
  | _ => false

namespace Body

open Classfile.Action

variable {body next : Body} {pool : Pool} {call : Call} {e : Error}

/-- A call that does not ask for a constant leaves the pool alone. -/
theorem pool_of_fails {next : Body × Pool} (h : Fails call.run (body, pool) e next)
    (hcall : ∀ addition, call ≠ .addConstant addition) : next.2 = pool := by
  cases call with
  | push instruction => exact (fails_onFstWith.mp (fails_bind_pure.mp h)).2.symm
  | addConstant addition => exact absurd rfl (hcall addition)
  | _ => exact (fails_onFst.mp (fails_bind_pure.mp h)).2.symm

/-! ### Rejected operations and labels -/

/-- The step was to append an operation or to place a label, and that was rejected. -/
def Rejected (step : Run.Step (Body × Pool) Request) : Prop :=
  ∃ call e, step.call = .call call ∧ (call.operation?.isSome ∨ call.label?.isSome) ∧
    (call.run step.before).result = .error e ∧ e.isRejection

theorem after_of_rejected {step : Run.Step (Body × Pool) Request} (h : Rejected step) :
    step.after Request.run = step.before := by
  obtain ⟨call, e, hcall, hedits, hresult, he⟩ := h
  have hfails : Fails call.run step.before e (call.run step.before).state := ⟨hresult, rfl⟩
  have hstate : step.after Request.run = (call.run step.before).state := by
    rw [Run.Step.after, Run.Step.outcome, hcall]
    exact state_bind_pure ..
  rw [hstate]
  refine Prod.ext (unchanged_of_fails hfails fun hoverflow => ?_) (pool_of_fails hfails ?_)
  · cases e <;> simp [Error.isRejection, Error.isValueOverflow] at he hoverflow
  · rintro addition rfl
    simp [Call.operation?, Call.label?] at hedits

/-- **Rejected operations and labels.** They leave the body and the pool as they were, and the run
goes on as if they had not been tried: without the step all other steps are made on the same states,
and the run ends in the same state. -/
theorem steps_of_rejected {s : Body × Pool} {requests : List Request}
    {before after : List (Run.Step (Body × Pool) Request)} {step : Run.Step (Body × Pool) Request}
    (hsteps : Run.steps Request.run requests s = before ++ step :: after) (h : Rejected step) :
    step.after Request.run = step.before ∧
    Run.steps Request.run ((before ++ after).map Run.Step.call) s = before ++ after ∧
    Run.final Request.run ((before ++ after).map Run.Step.call) s =
      Run.final Request.run requests s := by
  have hsame := after_of_rejected h
  exact ⟨hsame, Run.steps_of_unchanged Request.run hsteps hsame⟩

/-- There is nothing to drop, a label is placed where its jump does not expect it and then once too
often, and another one is to take over the frame of a label without a place. -/
def stumblingRequests : List Request :=
  [.call (.push .pop), .call (.push (.pushByte 4)), .call (.branch (.ifZero .eq ⟨0⟩)),
    .call (.push (.pushByte 5)), .call (.place ⟨0⟩), .call (.push .pop), .call (.place ⟨0⟩),
    .call (.place ⟨0⟩), .call (.placeFrom ⟨1⟩ ⟨2⟩), .call (.branch (.leave none)), .lower]

theorem steps_of_rejected_stumbling : ∃ body before step after found expected,
    start ⟨[], none⟩ (.truncate .method 0x0008) "Hi" = .ok body ∧
    Run.steps Request.run stumblingRequests (body, .empty) = before ++ step :: after ∧
    step.call = .call (.place ⟨0⟩) ∧ (step.outcome Request.run).result =
      .error (.incompatibleFrames ⟨0⟩ found expected) ∧
    step.after Request.run = step.before ∧
    Run.steps Request.run (stumblingRequests.eraseIdx 4) (body, .empty) = before ++ after ∧
    Run.final Request.run (stumblingRequests.eraseIdx 4) (body, .empty) =
      Run.final Request.run stumblingRequests (body, .empty) := by
  have hrun : ∃ body found expected, start ⟨[], none⟩ (.truncate .method 0x0008) "Hi" = .ok body ∧
      (Call.run (.place ⟨0⟩)
        (Run.final Request.run (stumblingRequests.take 4) (body, .empty))).result =
        .error (.incompatibleFrames ⟨0⟩ found expected) := ⟨_, _, _, rfl, rfl⟩
  obtain ⟨body, found, expected, hstart, hplace⟩ := hrun
  have hdrop : stumblingRequests.drop 4 = .call (.place ⟨0⟩) :: stumblingRequests.drop 5 := rfl
  have hsteps := Run.steps_append Request.run (stumblingRequests.take 4)
    (stumblingRequests.drop 4) (body, .empty)
  rw [List.take_append_drop, hdrop, Run.steps] at hsteps
  generalize Run.final Request.run (stumblingRequests.take 4) (body, .empty) = mid at hplace hsteps
  have hrejected : Rejected ⟨.call (.place ⟨0⟩), mid⟩ := ⟨_, _, rfl, .inr rfl, hplace, rfl⟩
  obtain ⟨hsame, hothers, hfinal⟩ := steps_of_rejected hsteps hrejected
  rw [List.map_append, Run.map_call_steps, Run.map_call_steps,
    ← List.eraseIdx_eq_take_drop_succ] at hothers hfinal
  have hresult := (result_bind_pure ..).trans (congrArg (Except.map fun _ => ()) hplace)
  exact ⟨body, _, _, _, found, expected, hstart, hsteps, rfl, hresult, hsame, hothers, hfinal⟩

/-! ### Limits -/

theorem Exceeds.limit {frame : Frame} {what : String} {value : Nat} {P : Prop}
    (h : Exceeds frame (.valueOverflow what value)) :
    ¬ (what = "local variable index" ∨ what = "code offset" ∧ P) := by
  cases h with
  | stack => simp
  | locals => simp

/-- A jump leaves no frame if its label is known already, or if it has none. -/
theorem expecting_eq_self_iff {target : Option Label} {frame : Frame} :
    body.expecting target frame = body ↔
      ∀ label, target = some label → label ∈ body.labels ∨ label ∈ body.pending := by
  cases target with
  | none => simp [expecting]
  | some label =>
    simp only [Option.some.injEq, forall_eq', Std.TreeMap.mem_iff_isSome_getElem?]
    constructor
    · intro h
      rw [← h]
      exact expecting_known label frame
    · intro hknown
      rw [expecting, if_neg]
      rintro ⟨hlabel, hpending⟩
      simp [hlabel, hpending] at hknown

/-- **Calls that run into a limit.** Nothing but the body changes, and it is left as it was exactly
if the limit is that on indices of locals or on offsets, where in the latter case a jump goes to a
label that is known already. In all other cases what was done before the limit was met stays. -/
theorem unchanged_iff_of_overflow {next : Body × Pool} {what : String} {value : Nat}
    (h : Fails call.run (body, pool) (.valueOverflow what value) next)
    (hcall : ∀ addition, call ≠ .addConstant addition) :
    next.2 = pool ∧ Overrun body pool call (.valueOverflow what value) next.1 ∧
    (next.1 = body ↔ what = "local variable index" ∨ what = "code offset" ∧
      ∀ b label, call = .branch b → b.target? = some label →
        label ∈ body.labels ∨ label ∈ body.pending) := by
  have hoverrun := (stopped_of_fails h hcall).resolve_left fun hsame => hsame.1 rfl
  refine ⟨pool_of_fails h hcall, hoverrun, ?_⟩
  generalize next.1 = last at hoverrun
  cases hoverrun with
  | label hlabel hsize =>
    refine iff_of_true rfl (.inr ⟨rfl, fun b label hbranch => ?_⟩)
    rw [hbranch] at hlabel
    cases hlabel
  | @offset _ operation frame hoperation heffect hreach hsize =>
    have hother : "code offset" ≠ "local variable index" := by decide
    rw [expecting_eq_self_iff, or_iff_right hother, and_iff_right rfl]
    constructor
    · rintro hknown b label rfl htarget
      cases hoperation
      exact hknown label htarget
    · intro hknown label htarget
      cases call with
      | branch b =>
        cases hoperation
        exact hknown b label rfl htarget
      | push instruction =>
        cases hoperation
        cases htarget
      | _ => cases hoperation
  | append hoperation heffect hroom hexceeds =>
    refine iff_of_false (fun heq => ?_) hexceeds.limit
    have hsize := congrArg (fun body : Body => body.code.size) heq
    simp at hsize
  | index hsize => exact iff_of_true rfl (.inl rfl)
  | allocLocal hexceeds =>
    refine iff_of_false (fun heq => ?_) hexceeds.limit
    have hsize := congrArg (fun body : Body => body.current.locals.size) heq
    simp [withLocal, raised] at hsize

/-- A static method has as many locals as parameters when it starts. -/
theorem exists_start {count : Nat} (hcount : count < 0x10000) :
    ∃ body, start ⟨List.replicate count .int, none⟩ (.truncate .method 0x0008) "Hi" = .ok body ∧
      body.current = ⟨0, (List.replicate count .int).toArray, []⟩ ∧ body.reachable = true := by
  have hentry : Frame.entry ⟨List.replicate count .int, none⟩ (.truncate .method 0x0008) "Hi" =
      ⟨0, (List.replicate count .int).toArray, []⟩ := rfl
  simp only [start, hentry, List.size_toArray, List.length_replicate, fitValue, hcount, if_true]
  exact ⟨_, rfl, rfl, rfl⟩

/-- With as many locals as can be counted, one more is there although it is refused. The next one
has no index and leaves the body alone. -/
theorem unchanged_iff_of_overflow_locals : ∃ body full next,
    start ⟨List.replicate 65535 .int, none⟩ (.truncate .method 0x0008) "Hi" = .ok body ∧
    Fails (Call.allocLocal .int).run (body, .empty) (.valueOverflow "max_locals" 65536) full ∧
    full.1 ≠ body ∧ full.2 = .empty ∧
    Fails (Call.allocLocal .int).run full (.valueOverflow "local variable index" 65536) next ∧
    next = full := by
  have hcall : ∀ addition, Call.allocLocal .int ≠ .addConstant addition := by
    intro addition h
    cases h
  have hcount : 65535 < 0x10000 := by decide
  obtain ⟨body, hstart, hcurrent, -⟩ := exists_start hcount
  have hlocals : body.current.locals.size = 65535 := by
    rw [hcurrent, List.size_toArray, List.length_replicate]
  have hmore : (body.withLocal .int).current.locals.size = 65536 := by
    change (body.current.locals.push _).size = _
    rw [Array.size_push, hlocals]
  have hstack : (body.withLocal .int).current.stack.length < 0x10000 := by
    change body.current.stack.length < _
    rw [hcurrent]
    decide
  have hfirst : Fails (Call.allocLocal .int).run (body, .empty) (.valueOverflow "max_locals" 65536)
      ({ body with current := (body.withLocal .int).current }, .empty) := by
    apply fails_bind_pure.mpr
    refine fails_onFst.mpr ⟨fails_allocLocal_iff.mpr (.inr ⟨?_, ?_, rfl⟩), rfl⟩
    · omega
    · rw [← hmore]
      exact .locals hstack (by omega)
  have hsecond : Fails (Call.allocLocal .int).run
      ({ body with current := (body.withLocal .int).current }, .empty)
      (.valueOverflow "local variable index" 65536)
      ({ body with current := (body.withLocal .int).current }, .empty) := by
    apply fails_bind_pure.mpr
    refine fails_onFst.mpr ⟨fails_allocLocal_iff.mpr (.inl ⟨?_, ?_, rfl⟩), rfl⟩
    · exact Nat.le_of_eq hmore.symm
    · exact congrArg _ hmore.symm
  obtain ⟨hpool, -, hchanged⟩ := unchanged_iff_of_overflow hfirst hcall
  obtain ⟨-, -, hsame⟩ := unchanged_iff_of_overflow hsecond hcall
  refine ⟨body, _, _, hstart, hfirst, ?_, hpool, hsecond, ?_⟩
  · rw [Ne, hchanged]
    simp
  · exact Prod.ext (hsame.mpr (.inl rfl)) rfl

/-! ### A refused instruction that stays -/

/-- Where code can be reached, an instruction whose effect is known is appended at once. -/
theorem push_of_reachable {instruction : Instruction} {frame : Frame}
    (hreach : body.reachable = true) (heffect : instruction.effect pool body.current = .ok frame) :
    (push pool instruction body).result = (append (.plain instruction) frame body).result ∧
      (push pool instruction body).state = (append (.plain instruction) frame body).state := by
  have hinterpret : Gives (interpret (.plain instruction) (instruction.effect pool)) body frame
      body := by simp [interpret, heffect]
  have henter : Gives enter body () body := by simp [enter, hreach]
  obtain ⟨hresult, hstate⟩ := bind_of_gives hinterpret fun frame => do
    enter
    append (.plain instruction) frame
  obtain ⟨hresult', hstate'⟩ := bind_of_gives henter fun _ => append (.plain instruction) frame
  exact ⟨hresult.trans hresult', hstate.trans hstate'⟩

theorem gives_push_of_fits {instruction : Instruction} {frame : Frame}
    (hreach : body.reachable = true) (heffect : instruction.effect pool body.current = .ok frame)
    (hfits : Fits frame) :
    Gives (Call.push instruction).run (body, pool) .done
      (body.grown (.plain instruction) frame, pool) := by
  have happend : Gives (append (.plain instruction) frame) body () _ :=
    gives_append_iff.mpr ⟨rfl, hfits⟩
  obtain ⟨hresult, hstate⟩ := push_of_reachable hreach heffect
  exact gives_bind_pure.mpr ⟨(), gives_onFstWith.mpr
    ⟨⟨hresult.trans happend.1, hstate.trans happend.2⟩, rfl⟩, rfl⟩

theorem fails_push_of_exceeds {instruction : Instruction} {frame : Frame}
    (hreach : body.reachable = true) (heffect : instruction.effect pool body.current = .ok frame)
    (hexceeds : Exceeds frame e) :
    Fails (Call.push instruction).run (body, pool) e
      ({ body with
        code := body.code.push ⟨body.size, .plain instruction⟩
        current := frame }, pool) := by
  have happend : Fails (append (.plain instruction) frame) body e _ :=
    fails_append_iff.mpr ⟨hexceeds, rfl⟩
  obtain ⟨hresult, hstate⟩ := push_of_reachable hreach heffect
  exact fails_bind_pure.mpr (fails_onFstWith.mpr
    ⟨⟨hresult.trans happend.1, hstate.trans happend.2⟩, rfl⟩)

/-- A store to the local after the last makes that local. -/
theorem effect_store_end {slot : Slot} {i : UInt16} {frame : Frame} {type : FieldType}
    {stack : List FieldType} (hstack : frame.stack = type :: stack)
    (hi : i.toNat = frame.locals.size) :
    (Instruction.store slot i).effect pool frame =
      .ok { frame with locals := frame.locals.push type, stack } := by
  have hpop : frame.pop = .ok (type, { frame with stack }) := by rw [Frame.pop, hstack]
  have hnot : ¬ i.toNat < frame.locals.size := by omega
  simp only [Instruction.effect, hpop, Frame.setLocal, bind, Except.bind, if_neg hnot, if_pos hi]

/-- A number is put on the stack and stored in the local after the last. -/
def storeCalls : List Call :=
  [.push (.pushByte 0), .push (.store .int 65535)]

/-- There cannot be another local, but the refused instruction is part of the code. -/
theorem changed_storeCalls : ∃ body step,
    start ⟨List.replicate 65535 .int, none⟩ (.truncate .method 0x0008) "Hi" = .ok body ∧
    (Run.steps Call.run storeCalls (body, .empty))[1]? = some step ∧
    step.call = .push (.store .int 65535) ∧
    (step.outcome Call.run).result = .error (.valueOverflow "max_locals" 65536) ∧
    (step.after Call.run).1.code =
      step.before.1.code.push ⟨step.before.1.size, .plain (.store .int 65535)⟩ ∧
    (step.after Call.run).1 ≠ step.before.1 := by
  have hcount : 65535 < 0x10000 := by decide
  obtain ⟨body, hstart, hcurrent, hreach⟩ := exists_start hcount
  generalize hlocals : (List.replicate 65535 FieldType.int).toArray = locals at hcurrent
  have hsize : locals.size = 65535 := by
    rw [← hlocals, List.size_toArray, List.length_replicate]
  have hfits : Fits ⟨0, locals, [.int]⟩ := ⟨Nat.succ_lt_succ (Nat.succ_pos _), hsize ▸ hcount⟩
  have hfirst : Gives (Call.push (.pushByte 0)).run (body, .empty) .done
      (body.grown (.plain (.pushByte 0)) ⟨0, locals, [.int]⟩, .empty) :=
    gives_push_of_fits hreach (by rw [hcurrent]; rfl) hfits
  have hmore : (locals.push .int).size = 65536 := by rw [Array.size_push, hsize]
  have hexceeds : Exceeds ⟨0, locals.push .int, []⟩ (.valueOverflow "max_locals" 65536) :=
    hmore ▸ .locals (Nat.succ_pos _) (Nat.le_of_eq hmore.symm)
  have hstore : (Instruction.store .int 65535).effect .empty ⟨0, locals, [.int]⟩ =
      .ok ⟨0, locals.push .int, []⟩ := effect_store_end rfl hsize.symm
  have hsecond : Fails (Call.push (.store .int 65535)).run
      (body.grown (.plain (.pushByte 0)) ⟨0, locals, [.int]⟩, .empty)
      (.valueOverflow "max_locals" 65536) _ := fails_push_of_exceeds hreach hstore hexceeds
  refine ⟨body, ⟨_, _⟩, hstart, rfl, rfl, ?_⟩
  rw [Run.Step.after, Run.Step.outcome, hfirst.2, hsecond.1, hsecond.2]
  refine ⟨rfl, rfl, fun heq => ?_⟩
  have hcode := congrArg (fun body : Body => body.code.size) heq
  simp at hcode

end Body

end Classfile
