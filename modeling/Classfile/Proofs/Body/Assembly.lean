import Classfile.Body.Lowering
import Classfile.Proofs.Body.Layout
import Classfile.Proofs.Instruction.Decoding
import Mathlib.Data.List.Forall2

/-!
# Assembled bodies

The bytes of a lowered body are read back as the operations that were pushed, and every jump leads
to the place of its label. Assembly fails at the first jump that cannot get its distance. Filling
the distances into the bytes, jump after jump, never leaves them and has the same outcome. A body
that is lowered again gives the same or fails for the same reason.
-/

namespace Classfile.Body

open Classfile.Action

variable {body : Body}

/-! ### Jumps without a distance -/

/-- A jump that cannot get its distance, and the error that says so. -/
inductive Faulty (body : Body) (jump : Placed) : Error → Prop where
  | unplaced {label : Label} (htarget : jump.operation.target? = some label)
      (hlabel : body.labelOffset? label = none) : Faulty body jump (.unplacedLabel label)
  | far {label : Label} {target : UInt16} (htarget : jump.operation.target? = some label)
      (hlabel : body.labelOffset? label = some target)
      (hfar : (target.toNat : Int) - jump.offset < -32768 ∨
        32767 < (target.toNat : Int) - jump.offset) :
      Faulty body jump (.jumpOverflow jump.offset target.toNat)

/-- The distance leads from the jump to its target. -/
def Leads (body : Body) (offset : Nat) (operation : Operation) (distance : Int16) : Prop :=
  ∀ label, operation.target? = some label →
    ∃ target, body.labelOffset? label = some target ∧ offset + distance.toInt = target.toNat

theorem resolve_eq_error_iff {placed : Placed} {e : Error} :
    body.resolve placed = .error e ↔ body.Faulty placed e := by
  unfold resolve
  constructor
  · intro h
    split at h
    · cases h
    · next label htarget =>
      split at h
      · next hlabel =>
        cases h
        exact .unplaced htarget hlabel
      · next target hlabel =>
        simp only at h
        split at h
        · cases h
        · cases h
          exact .far htarget hlabel (by omega)
  · rintro (⟨htarget, hlabel⟩ | ⟨htarget, hlabel, hfar⟩)
    · simp [htarget, hlabel]
    · simp only [htarget, hlabel]
      rw [if_neg (by omega)]

theorem exists_of_resolve_eq_ok {placed : Placed} {bytes : List UInt8}
    (h : body.resolve placed = .ok bytes) :
    ∃ distance, bytes = placed.operation.encode distance ∧
      body.Leads placed.offset placed.operation distance := by
  unfold resolve at h
  split at h
  · next htarget =>
    cases h
    refine ⟨0, rfl, fun label hlabel => ?_⟩
    rw [htarget] at hlabel
    cases hlabel
  · next label htarget =>
    split at h
    · cases h
    · next target hlabel =>
      simp only at h
      split at h
      · next hfits =>
        cases h
        refine ⟨_, rfl, fun other hother => ⟨target, ?_, ?_⟩⟩
        · rw [htarget] at hother
          cases hother
          exact hlabel
        · rw [Int16.toInt_ofInt_of_le hfits.1 (by omega)]
          omega
      · cases h

theorem Faulty.isJump {placed : Placed} {e : Error} (h : body.Faulty placed e) :
    placed.operation.target?.isSome := by
  cases h with
  | unplaced htarget => simp [htarget]
  | far htarget => simp [htarget]

theorem mapM_resolve_cons_of_error {placed : Placed} {rest : List Placed} {e : Error}
    (h : body.resolve placed = .error e) :
    (placed :: rest).mapM body.resolve = .error e := by
  rw [List.mapM_cons, h]
  rfl

theorem mapM_resolve_cons_of_ok {placed : Placed} {rest : List Placed} {bytes : List UInt8}
    (h : body.resolve placed = .ok bytes) :
    (placed :: rest).mapM body.resolve = (rest.mapM body.resolve).map (bytes :: ·) := by
  rw [List.mapM_cons, h]
  rfl

def FirstFault (body : Body) (jumps : List Placed) (e : Error) : Prop :=
  ∃ before jump after, jumps = before ++ jump :: after ∧
    (∀ earlier ∈ before, ∀ e, ¬ body.Faulty earlier e) ∧ body.Faulty jump e

theorem firstFault_cons {jump : Placed} {jumps : List Placed} {e : Error} :
    body.FirstFault (jump :: jumps) e ↔
      body.Faulty jump e ∨ (∀ e, ¬ body.Faulty jump e) ∧ body.FirstFault jumps e := by
  constructor
  · rintro ⟨before, first, after, heq, hbefore, hfirst⟩
    cases before with
    | nil =>
      cases heq
      exact .inl hfirst
    | cons earlier before =>
      cases heq
      rw [List.forall_mem_cons] at hbefore
      exact .inr ⟨hbefore.1, before, first, after, rfl, hbefore.2, hfirst⟩
  · rintro (h | ⟨hjump, before, first, after, rfl, hbefore, hfirst⟩)
    · exact ⟨[], jump, jumps, rfl, by simp, h⟩
    · exact ⟨jump :: before, first, after, rfl, List.forall_mem_cons.mpr ⟨hjump, hbefore⟩, hfirst⟩

/-- Of the operations only jumps can fail to get bytes, and the first that does is reported. -/
theorem mapM_resolve_eq_error_iff {code : List Placed} {e : Error} :
    code.mapM body.resolve = .error e ↔
      body.FirstFault (code.filter fun placed => placed.operation.target?.isSome) e := by
  induction code with
  | nil => simp [FirstFault, pure, Except.pure]
  | cons placed rest ih =>
    cases hresolve : body.resolve placed with
    | error e' =>
      have hfaulty := resolve_eq_error_iff.mp hresolve
      rw [mapM_resolve_cons_of_error hresolve, List.filter_cons, if_pos hfaulty.isJump,
        firstFault_cons]
      constructor
      · rintro ⟨⟩
        exact .inl hfaulty
      · rintro (h | ⟨h, -⟩)
        · rw [resolve_eq_error_iff.mpr h] at hresolve
          cases hresolve
          rfl
        · exact absurd hfaulty (h e')
    | ok bytes =>
      have hsound : ∀ e, ¬ body.Faulty placed e := by
        intro e h
        rw [resolve_eq_error_iff.mpr h] at hresolve
        cases hresolve
      have hrest : (placed :: rest).mapM body.resolve = .error e ↔
          rest.mapM body.resolve = .error e := by
        rw [mapM_resolve_cons_of_ok hresolve]
        cases rest.mapM body.resolve <;> simp [Except.map]
      rw [hrest, ih, List.filter_cons]
      split
      · simp [firstFault_cons, hsound]
      · rfl

theorem assemble_eq_error_iff {e : Error} :
    body.assemble = .error e ↔ body.FirstFault body.jumps e := by
  rw [jumps, ← mapM_resolve_eq_error_iff, assemble]
  cases body.code.toList.mapM body.resolve <;> simp [Except.map]

theorem exists_firstFault {jumps : List Placed} {jump : Placed} {e : Error} (hmem : jump ∈ jumps)
    (h : body.Faulty jump e) : ∃ first, body.FirstFault jumps first := by
  induction jumps with
  | nil => cases hmem
  | cons other jumps ih =>
    by_cases hother : ∃ e, body.Faulty other e
    · obtain ⟨e, hother⟩ := hother
      exact ⟨e, firstFault_cons.mpr (.inl hother)⟩
    · obtain rfl | hmem := List.mem_cons.mp hmem
      · exact absurd ⟨e, h⟩ hother
      · obtain ⟨first, hfirst⟩ := ih hmem
        exact ⟨first, firstFault_cons.mpr (.inr ⟨not_exists.mp hother, hfirst⟩)⟩

theorem exists_target_of_assemble {bytes : List UInt8} (h : body.assemble = .ok bytes)
    {jump : Placed} (hjump : jump ∈ body.jumps) {label : Label}
    (htarget : jump.operation.target? = some label) :
    ∃ target, body.labelOffset? label = some target := by
  cases hoffset : body.labelOffset? label with
  | some target => exact ⟨target, rfl⟩
  | none =>
    obtain ⟨e, hfault⟩ := exists_firstFault hjump (.unplaced htarget hoffset)
    rw [assemble_eq_error_iff.mpr hfault] at h
    cases h

/-! ### Reading the bytes back -/

open Decoded

/-- What a machine reads at an offset is the operation, and a jump leads to the place of its
label. -/
def Realizes (body : Body) (entry : Nat × Decoded) (operation : Operation) : Prop :=
  ∃ distance, entry.2 = operation.decoded distance ∧ body.Leads entry.1 operation distance

theorem disassembleFrom_flatten {code : List Placed} {offset bound : Nat}
    {chunks : List (List UInt8)} (hcode : Contiguous offset code)
    (hchunks : code.mapM body.resolve = .ok chunks) (hbound : chunks.flatten.length ≤ bound) :
    ∃ decoded, disassembleFrom bound offset chunks.flatten = some decoded ∧
      List.Forall₂ body.Realizes decoded (code.map (·.operation)) := by
  induction code generalizing offset bound chunks with
  | nil =>
    cases hchunks
    exact ⟨[], by simp [disassembleFrom], .nil⟩
  | cons placed rest ih =>
    obtain ⟨rfl, hrest⟩ := hcode
    cases hresolve : body.resolve placed with
    | error e =>
      rw [mapM_resolve_cons_of_error hresolve] at hchunks
      cases hchunks
    | ok bytes =>
      rw [mapM_resolve_cons_of_ok hresolve] at hchunks
      obtain ⟨others, hothers, hcons⟩ := bind_eq_ok hchunks
      cases hcons
      obtain ⟨distance, rfl, hleads⟩ := exists_of_resolve_eq_ok hresolve
      have hwidth := placed.operation.length_encode distance
      have hpos := placed.operation.width_pos
      simp only [List.flatten_cons, List.length_append] at hbound ⊢
      obtain ⟨bound, rfl⟩ : ∃ fewer, bound = fewer + 1 := ⟨bound - 1, by omega⟩
      have hfewer : others.flatten.length ≤ bound := by omega
      obtain ⟨decoded, hdecoded, hrealizes⟩ := ih hrest hothers hfewer
      refine ⟨(placed.offset, placed.operation.decoded distance) :: decoded, ?_, ?_⟩
      · have hne : placed.operation.encode distance ≠ [] := by
          rw [← List.length_pos_iff]
          omega
        rw [disassembleFrom_append (reads_encode_operation distance placed.operation) hne, hwidth,
          hdecoded]
        rfl
      · exact .cons ⟨distance, rfl, hleads⟩ hrealizes

theorem WellLaid.disassemble_assemble (h : body.WellLaid) {bytes : List UInt8}
    (hbytes : body.assemble = .ok bytes) :
    ∃ decoded, disassemble bytes = some decoded ∧
      List.Forall₂ body.Realizes decoded (body.code.toList.map (·.operation)) := by
  obtain ⟨chunks, hchunks, hflatten⟩ := bind_eq_ok hbytes
  cases hflatten
  exact disassembleFrom_flatten h hchunks (Nat.le_refl _)

/-! ### Filling the distances in -/

/-- Replaces the two bytes after an opcode, if there are two. -/
def patch (bytes : List UInt8) (offset : Nat) (distance : Int16) : Option (List UInt8) :=
  if offset + 3 ≤ bytes.length then
    some (bytes.take (offset + 1) ++ Bytes.be16 distance.toUInt16 ++ bytes.drop (offset + 3))
  else none

/-- Fills in one distance after the other. There is no outcome if a distance has no room. -/
def patchAll (body : Body) : List Placed → List UInt8 → Option (Except Error (List UInt8))
  | [], bytes => some (.ok bytes)
  | jump :: rest, bytes =>
    match jump.operation.target? with
    | none => patchAll body rest bytes
    | some label =>
      match body.labelOffset? label with
      | none => some (.error (.unplacedLabel label))
      | some target =>
        let distance : Int := (target.toNat : Int) - (jump.offset : Int)
        if -32768 ≤ distance ∧ distance ≤ 32767 then
          (patch bytes jump.offset (Int16.ofInt distance)).bind (patchAll body rest)
        else some (.error (.jumpOverflow jump.offset target.toNat))

theorem exists_encode_eq {operation : Operation} {label : Label}
    (h : operation.target? = some label) :
    ∃ opcode, ∀ distance, operation.encode distance = opcode :: Bytes.be16 distance.toUInt16 := by
  cases operation with
  | plain => cases h
  | branch b =>
    have h : b.target? = some label := h
    exact ⟨b.opcode, fun distance => by rw [Operation.encode, Branch.encode, h]⟩

theorem patch_encode {operation : Operation} {label : Label} (h : operation.target? = some label)
    (before after : List UInt8) (distance : Int16) :
    patch (before ++ (operation.encode 0 ++ after)) before.length distance =
      some (before ++ operation.encode distance ++ after) := by
  obtain ⟨opcode, hencode⟩ := exists_encode_eq h
  have hlength : before.length + 3 ≤ (before ++ (operation.encode 0 ++ after)).length := by
    simp [hencode]
  rw [patch, if_pos hlength, hencode, hencode, List.take_length_add_append,
    List.drop_length_add_append]
  simp [Bytes.be16]

/-- The jumps already met have their distance and those to come have none, so the operations that
follow are those to assemble. -/
theorem patchAll_append {code : List Placed} {before : List UInt8}
    (hcode : Contiguous before.length code) :
    body.patchAll (code.filter fun placed => placed.operation.target?.isSome)
        (before ++ code.flatMap fun placed => placed.operation.encode 0) =
      some ((code.mapM body.resolve).map fun chunks => before ++ chunks.flatten) := by
  induction code generalizing before with
  | nil => simp [patchAll, pure, Except.pure, Except.map]
  | cons placed rest ih =>
    obtain ⟨hoffset, hrest⟩ := hcode
    -- Once the operation has its bytes, the rest follows them.
    have hnext : ∀ distance, body.resolve placed = .ok (placed.operation.encode distance) →
        body.patchAll (rest.filter fun placed => placed.operation.target?.isSome)
            (before ++ placed.operation.encode distance ++
              rest.flatMap fun placed => placed.operation.encode 0) =
          some (((placed :: rest).mapM body.resolve).map fun chunks =>
            before ++ chunks.flatten) := by
      intro distance hresolve
      rw [ih (by simpa [Operation.length_encode] using hrest), mapM_resolve_cons_of_ok hresolve]
      cases rest.mapM body.resolve <;> simp [Except.map]
    rw [List.flatMap_cons, List.filter_cons]
    cases htarget : placed.operation.target? with
    | none =>
      rw [← List.append_assoc]
      exact hnext 0 (by rw [resolve, htarget])
    | some label =>
      simp only [Option.isSome_some, if_true, patchAll, htarget]
      cases hlabel : body.labelOffset? label with
      | none =>
        have hfault : body.Faulty placed _ := .unplaced htarget hlabel
        rw [mapM_resolve_cons_of_error (resolve_eq_error_iff.mpr hfault)]
        rfl
      | some target =>
        simp only
        split
        · next hfits =>
          rw [hoffset, patch_encode htarget, Option.bind_some]
          refine hnext _ ?_
          simp only [resolve, htarget, hlabel]
          rw [if_pos hfits, hoffset]
        · next hfar =>
          have hfault : body.Faulty placed _ := .far htarget hlabel (by omega)
          rw [mapM_resolve_cons_of_error (resolve_eq_error_iff.mpr hfault)]
          rfl

theorem WellLaid.patchAll_jumps (h : body.WellLaid) :
    body.patchAll body.jumps body.bytecode = some body.assemble := by
  have hpatch := @patchAll_append body body.code.toList [] h
  simpa [jumps, bytecode, assemble] using hpatch

theorem length_flatMap_encode (code : List Placed) :
    (code.flatMap fun placed => placed.operation.encode 0).length = extent code := by
  induction code with
  | nil => rfl
  | cons placed rest ih =>
    rw [List.flatMap_cons, List.length_append, ih, extent_cons, Operation.length_encode]

theorem WellLaid.length_bytecode (h : body.WellLaid) : body.bytecode.length = body.size := by
  rw [h.size_eq, bytecode, length_flatMap_encode]

theorem width_of_target {operation : Operation} {label : Label}
    (h : operation.target? = some label) : operation.width = 3 := by
  obtain ⟨opcode, hencode⟩ := exists_encode_eq h
  rw [← Operation.length_encode 0, hencode]
  rfl

/-- The two bytes for the distance of a jump are there. -/
theorem WellLaid.jump_bounds (h : body.WellLaid) {jump : Placed} (hjump : jump ∈ body.jumps) :
    jump.offset + 3 ≤ body.bytecode.length := by
  obtain ⟨hmem, htarget⟩ := List.mem_filter.mp hjump
  obtain ⟨label, hlabel⟩ := Option.isSome_iff_exists.mp htarget
  rw [h.length_bytecode, ← width_of_target hlabel]
  exact h.bounds hmem

/-! ### Operations of a run -/

/-- The operation pushed by a step, if the call was accepted. -/
def pushed? (step : Run.Step (Body × Pool) Call) : Option Operation :=
  match (step.outcome Call.run).result with
  | .ok _ => step.call.operation?
  | .error _ => none

theorem Advance.operations {pool : Pool} {call : Call} {next : Body}
    (h : body.Advance pool call next) :
    next.code.toList.map (·.operation) =
      body.code.toList.map (·.operation) ++ call.operation?.toList := by
  cases h with
  | push => simp [grown, raised, Call.operation?]
  | branch => simp [grown, raised, Call.operation?]
  | mark hcall => obtain rfl | ⟨parent, rfl⟩ := hcall <;> simp [marked, Call.operation?]
  | freshLabel => simp [Call.operation?]
  | allocLocal => simp [withLocal, raised, Call.operation?]
  | addStackMap => simp [Call.operation?]
  | addConstant => simp [Call.operation?]

theorem operations_step (step : Run.Step (Body × Pool) Call) (hfits : ¬ overflows step) :
    (step.after Call.run).1.code.toList.map (·.operation) =
      step.before.1.code.toList.map (·.operation) ++ (pushed? step).toList := by
  obtain ⟨reply, h⟩ | ⟨e, h⟩ := gives_or_fails step.call.run step.before
  · have hpushed : pushed? step = step.call.operation? := by
      rw [pushed?, Run.Step.outcome, h.1]
    rw [hpushed]
    exact (advance_of_gives h).operations
  · have hpushed : pushed? step = none := by rw [pushed?, Run.Step.outcome, h.1]
    have hsame : (step.after Call.run).1 = step.before.1 :=
      unchanged_of_fails h (by simpa [overflows, Run.Step.outcome, h.1] using hfits)
    rw [hpushed, hsame]
    simp

/-- The operations of a body are those that were pushed, in order. -/
theorem operations_final {calls : List Call} {s : Body × Pool} (hcode : s.1.code = #[])
    (hfits : ∀ step ∈ Run.steps Call.run calls s, ¬ overflows step) :
    (Run.final Call.run calls s).1.code.toList.map (·.operation) =
      (Run.steps Call.run calls s).filterMap pushed? := by
  refine Run.invariant Call.run (Q := fun step => ¬ overflows step)
    (P := fun made s => s.1.code.toList.map (·.operation) = made.filterMap pushed?)
    (fun made step hmade hstep => ?_) (by simp [hcode]) hfits
  rw [operations_step step hstep, hmade, List.filterMap_append, List.filterMap_cons,
    List.filterMap_nil]
  cases pushed? step <;> rfl

/-! ### Lowered bodies -/

/-- A body is lowered to its bytes and its stack map, and keeps the frames that went into the
map. -/
theorem gives_lower_iff {next : Body} {pool pool' : Pool} {layout : Layout.Code} :
    Gives lower (body, pool) layout (next, pool') ↔
      ∃ bytes attributes, body.assemble = .ok bytes ∧ next = body.settle ∧
        Gives body.settle.lowerAttributes pool attributes pool' ∧
        layout = ⟨body.maxStack, body.maxLocals, ⟨bytes⟩, attributes⟩ := by
  rw [lower, gives_gets_bind, gives_ofExcept_bind]
  refine exists_congr fun bytes => ?_
  rw [gives_onFst_modify_bind, gives_gets_bind, gives_bind]
  constructor
  · rintro ⟨hbytes, attributes, ⟨_, _⟩, hattributes, hlayout⟩
    obtain ⟨rfl, hattributes⟩ := gives_onSnd.mp hattributes
    rw [gives_report_bind, gives_pure] at hlayout
    obtain ⟨rfl, heq⟩ := hlayout
    cases heq
    exact ⟨attributes, hbytes, rfl, hattributes, rfl⟩
  · rintro ⟨attributes, hbytes, rfl, hattributes, rfl⟩
    refine ⟨hbytes, attributes, (body.settle, pool'), gives_onSnd.mpr ⟨rfl, hattributes⟩, ?_⟩
    rw [gives_report_bind, gives_pure]
    exact ⟨rfl, rfl⟩

/-- Lowering fails for a jump that has no distance, or else for the stack map. -/
theorem fails_lower_iff {next : Body} {pool pool' : Pool} {e : Error} :
    Fails lower (body, pool) e (next, pool') ↔
      (body.assemble = .error e ∧ next = body ∧ pool' = pool) ∨
        ∃ bytes, body.assemble = .ok bytes ∧ next = body.settle ∧
          Fails body.settle.lowerAttributes pool e pool' := by
  rw [lower, fails_gets_bind, fails_ofExcept_bind]
  refine or_congr ?_ (exists_congr fun bytes => and_congr_right fun _ => ?_)
  · simp [Prod.ext_iff, eq_comm]
  · rw [fails_onFst_modify_bind, fails_gets_bind, fails_bind]
    constructor
    · rintro (hattributes | ⟨attributes, _, -, hreport⟩)
      · obtain ⟨hnext, hattributes⟩ := fails_onSnd.mp hattributes
        exact ⟨hnext.symm, hattributes⟩
      · rw [fails_report_bind] at hreport
        exact absurd hreport fails_pure
    · rintro ⟨rfl, hattributes⟩
      exact .inl (fails_onSnd.mpr ⟨rfl, hattributes⟩)

theorem result_lower_of_assemble_eq_error {pool : Pool} {e : Error}
    (h : body.assemble = .error e) : (lower (body, pool)).result = .error e := by
  have hfails : Fails lower (body, pool) e (body, pool) := fails_lower_iff.mpr (.inl ⟨h, rfl, rfl⟩)
  exact hfails.1

/-! ### Lowering again -/

theorem settle_settle (body : Body) : body.settle.settle = body.settle := by
  unfold settle
  cases body.table <;> rfl

instance : Trans (Perhaps settle) (Perhaps settle) (Perhaps settle) :=
  ⟨Perhaps.trans settle_settle⟩

theorem repeats_lowerAttributes (body : Body) : Repeats Pool.GrowsTo body.lowerAttributes := by
  unfold lowerAttributes
  split
  · exact repeats_pure _
  · exact (Pool.repeats_stackMap _).bind fun _ => repeats_pure _

theorem moves_lower : Moves (Both (Perhaps settle) Pool.GrowsTo) lower := by
  rintro ⟨body, pool⟩
  rcases hstate : (lower (body, pool)).state with ⟨next, pool'⟩
  obtain ⟨layout, h⟩ | ⟨e, h⟩ := gives_or_fails lower (body, pool)
  · rw [hstate] at h
    obtain ⟨bytes, attributes, -, hnext, hattributes, -⟩ := gives_lower_iff.mp h
    exact ⟨.inr hnext, (repeats_lowerAttributes _).moves.of_gives hattributes⟩
  · rw [hstate] at h
    obtain ⟨-, rfl, rfl⟩ | ⟨bytes, -, hnext, hattributes⟩ := fails_lower_iff.mp h
    · exact Std.Refl.refl _
    · exact ⟨.inr hnext, (repeats_lowerAttributes _).moves.of_fails hattributes⟩

/-- The frames are handed over once. Later attempts find the same frames in the map. -/
theorem repeats_lower : Repeats (Both (Perhaps settle) Pool.GrowsTo) lower where
  moves := moves_lower
  gives {s layout s' later} h hlater := by
    obtain ⟨bytes, attributes, hbytes, hnext, hattributes, rfl⟩ := gives_lower_iff.mp h
    obtain ⟨body, pool⟩ := later
    have hbody : body = s.1.settle := Perhaps.eq settle_settle (hnext ▸ hlater.1)
    subst hbody
    rw [gives_lower_iff, settle_settle]
    exact ⟨bytes, attributes, hbytes, rfl,
      (repeats_lowerAttributes _).gives hattributes hlater.2, rfl⟩
  fails {s e s'} h := by
    obtain ⟨body, pool⟩ := s'
    obtain ⟨-, rfl, rfl⟩ | ⟨bytes, hbytes, rfl, hattributes⟩ := fails_lower_iff.mp h
    · exact h
    · rw [fails_lower_iff, settle_settle]
      exact .inr ⟨bytes, hbytes, rfl, (repeats_lowerAttributes _).fails hattributes⟩

theorem repeats_lowerAttribute : Repeats (Both (Perhaps settle) Pool.GrowsTo) lowerAttribute :=
  repeats_lower.bind fun _ => repeats_onSnd (Pool.repeats_toAttribute _)

/-! ### Runs -/

/-- **Correct assembly.** Whatever the calls on a fresh body, there is room for the distances of all
its jumps, and filling them in gives the assembly; lowering fails with the error of the first jump
that cannot get a distance; and if no call ran into an overflow, the bytes of the lowered body are
read back as the accepted operations, with jumps that lead to their labels. -/
theorem disassemble_lower {type : MethodType} {flags : Flags .method} {owner : String} {body : Body}
    (hstart : start type flags owner = .ok body) (pool : Pool) (calls : List Call) :
    let steps := Run.steps Call.run calls (body, pool)
    let built := Run.final Call.run calls (body, pool)
    ((∀ step ∈ steps, ¬ overflows step) → ∀ layout, (lower built).result = .ok layout →
      ∃ decoded, disassemble layout.code.bytes = some decoded ∧
        List.Forall₂ built.1.Realizes decoded (steps.filterMap pushed?)) ∧
    (∀ e, built.1.assemble = .error e ↔ built.1.FirstFault built.1.jumps e) ∧
    (∀ e, built.1.assemble = .error e → (lower built).result = .error e) ∧
    (∀ jump ∈ built.1.jumps, jump.offset + 3 ≤ built.1.bytecode.length) ∧
    built.1.patchAll built.1.jumps built.1.bytecode = some built.1.assemble := by
  have hlaid := wellLaid_final (s := (body, pool)) (wellLaid_start hstart) calls
  refine ⟨fun hfits layout hlayout => ?_, fun e => assemble_eq_error_iff,
    fun e => result_lower_of_assemble_eq_error, fun jump hjump => hlaid.jump_bounds hjump,
    hlaid.patchAll_jumps⟩
  obtain ⟨bytes, _, hbytes, -, -, rfl⟩ := gives_lower_iff.mp (gives_of_result hlayout)
  rw [← operations_final (start_eq_ok hstart).2.2.1 hfits]
  exact hlaid.disassemble_assemble hbytes

/-- Jumps in both directions over operands of every length, and a refused call. -/
def jumpCalls : List Call :=
  [.allocLocal .int, .allocLocal .int, .allocLocal .int, .allocLocal .int, .push (.load .int 0),
    .branch (.ifZero .eq ⟨0⟩), .place ⟨1⟩, .push (.increment 0 300), .push .pop,
    .push (.pushShort (-2)), .push (.store .int 4), .branch (.goto ⟨1⟩), .place ⟨0⟩,
    .branch (.leave none)]

theorem disassemble_lower_jumpCalls : ∃ body layout,
    start ⟨[.int], none⟩ (.truncate .method 0x0008) "Hi" = .ok body ∧
    (∀ step ∈ Run.steps Call.run jumpCalls (body, .empty), ¬ overflows step) ∧
    (lower (Run.final Call.run jumpCalls (body, .empty))).result = .ok layout ∧
    ∃ decoded, disassemble layout.code.bytes = some decoded ∧
      List.Forall₂ (Run.final Call.run jumpCalls (body, .empty)).1.Realizes decoded
        ((Run.steps Call.run jumpCalls (body, .empty)).filterMap pushed?) := by
  obtain ⟨body, layout, hstart, hfits, hlayout⟩ : ∃ body layout,
      start ⟨[.int], none⟩ (.truncate .method 0x0008) "Hi" = .ok body ∧
      (∀ step ∈ Run.steps Call.run jumpCalls (body, .empty), ¬ overflows step) ∧
      (lower (Run.final Call.run jumpCalls (body, .empty))).result = .ok layout :=
    ⟨_, _, rfl, by decide, rfl⟩
  exact ⟨body, layout, hstart, hfits, hlayout,
    (disassemble_lower hstart .empty jumpCalls).1 hfits layout hlayout⟩

end Classfile.Body
