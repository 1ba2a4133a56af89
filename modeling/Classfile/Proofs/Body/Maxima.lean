import Classfile.Proofs.Body.Agreement

/-!
# Exact maxima

The maxima of a body are raised when an operation or a new local makes the current frame larger, and
not when a label replaces the current frame by one that was recorded earlier. They are exact all the
same, since a frame is never held by a body unless it was current once.
-/

namespace Classfile.Body

/-! ### Frames of a run -/

/-- The current frames before each step and after the last. -/
def currents (made : List (Run.Step (Body × Pool) Call)) (body : Body) : List Frame :=
  made.map (fun step => step.before.1.current) ++ [body.current]

/-- The frame is current, recorded, at a label that has a place, or expected at one without. -/
inductive Holds (body : Body) : Frame → Prop where
  | current : Holds body body.current
  | recorded {frame : Frame} (h : frame ∈ body.frames.toList) : Holds body frame
  | placed {label : Label} {frame : Frame} (h : body.labels[label]? = some frame) :
      Holds body frame
  | expected {label : Label} {frame : Frame} (h : body.pending[label]? = some frame) :
      Holds body frame

theorem currents_append (made : List (Run.Step (Body × Pool) Call))
    (step : Run.Step (Body × Pool) Call) (body : Body) :
    currents (made ++ [step]) body = currents made step.before.1 ++ [body.current] := by
  simp [currents]

theorem max?_concat {sizes : List Nat} {largest : Nat} (h : sizes.max? = some largest)
    (size : Nat) : (sizes ++ [size]).max? = some (max largest size) := by
  obtain ⟨hmem, hle⟩ := List.max?_eq_some_iff.mp h
  rw [List.max?_eq_some_iff]
  constructor
  · rcases Nat.le_total largest size with horder | horder
    · simp [Nat.max_eq_right horder]
    · simp [Nat.max_eq_left horder, hmem]
  · intro other hother
    rw [List.mem_append, List.mem_singleton] at hother
    obtain hother | rfl := hother
    · exact Nat.le_trans (hle other hother) (Nat.le_max_left ..)
    · exact Nat.le_max_right ..

/-! ### Accepted calls -/

section Advance

variable {body next : Body} {pool : Pool} {call : Call} {frame : Frame}

theorem frames_entered_cases (h : frame ∈ body.entered.frames.toList) :
    frame ∈ body.frames.toList ∨ body.current.Agrees frame := by
  unfold entered at h
  split at h
  · exact .inl h
  · rw [Array.toList_push, List.mem_append, List.mem_singleton] at h
    apply h.imp_right
    rintro rfl
    exact body.current.agrees_placedAt _

/-- The next body holds the new current frame, and frames that were held before. -/
theorem Advance.holds_cases (h : body.Advance pool call next) (hholds : next.Holds frame) :
    (∃ earlier, body.Holds earlier ∧ earlier.Agrees frame) ∨ next.current.Agrees frame := by
  have hkeep : body.Holds frame → ∃ earlier, body.Holds earlier ∧ earlier.Agrees frame :=
    fun hframe => ⟨frame, hframe, .refl frame⟩
  cases hholds with
  | current => exact .inr (.refl _)
  | @expected label _ hpending =>
    obtain hpending | ⟨b, rfl, -, heffect⟩ := h.pending_cases hpending
    · exact .inl (hkeep (.expected hpending))
    · cases h with
      | branch heffect' =>
        obtain rfl := Except.ok.inj (heffect.symm.trans heffect')
        exact .inr (.refl _)
      | mark hcall => simp at hcall
  | recorded hmem =>
    cases h with
    | push =>
      obtain hmem | hagrees := frames_entered_cases hmem
      · exact .inl (hkeep (.recorded hmem))
      · exact .inl ⟨body.current, .current, hagrees⟩
    | branch =>
      obtain hmem | hagrees := frames_entered_cases hmem
      · rw [expecting_frames] at hmem
        exact .inl (hkeep (.recorded hmem))
      · rw [expecting_current] at hagrees
        exact .inl ⟨body.current, .current, hagrees⟩
    | mark =>
      rw [marked, Array.toList_push, List.mem_append, List.mem_singleton] at hmem
      obtain hmem | rfl := hmem
      · exact .inl (hkeep (.recorded hmem))
      · exact .inr (.refl _)
    | _ => exact .inl (hkeep (.recorded hmem))
  | @placed label _ hlabel =>
    cases h with
    | push => exact .inl (hkeep (.placed (by simpa [grown, raised] using hlabel)))
    | branch => exact .inl (hkeep (.placed (by simpa [grown, raised] using hlabel)))
    | mark =>
      rw [marked_labels] at hlabel
      split at hlabel
      · cases hlabel
        exact .inr (.refl _)
      · exact .inl (hkeep (.placed hlabel))
    | _ => exact .inl (hkeep (.placed hlabel))

theorem entered_maxima :
    body.entered.maxStack = body.maxStack ∧ body.entered.maxLocals = body.maxLocals := by
  unfold entered
  split <;> exact ⟨rfl, rfl⟩

theorem expecting_maxima (target : Option Label) :
    (body.expecting target frame).maxStack = body.maxStack ∧
      (body.expecting target frame).maxLocals = body.maxLocals := by
  obtain ⟨pending, h⟩ := body.exists_expecting_eq target frame
  rw [h]
  exact ⟨rfl, rfl⟩

/-- The maxima are what they were, or what the current frame needs. -/
theorem raised_maxima (body : Body) (h : Fits body.current) :
    body.raised.maxStack.toNat = max body.maxStack.toNat body.current.stack.length ∧
      body.raised.maxLocals.toNat = max body.maxLocals.toNat body.current.locals.size := by
  constructor
  · change (max body.maxStack _).toNat = _
    rw [UInt16.toNat_max, UInt16.toNat_ofNat_of_lt' h.1]
  · change (max body.maxLocals _).toNat = _
    rw [UInt16.toNat_max, UInt16.toNat_ofNat_of_lt' h.2]

theorem grown_maxima (body : Body) (operation : Operation) (h : Fits frame) :
    (body.grown operation frame).maxStack.toNat =
        max body.maxStack.toNat frame.stack.length ∧
      (body.grown operation frame).maxLocals.toNat =
        max body.maxLocals.toNat frame.locals.size :=
  raised_maxima { body with
    code := body.code.push ⟨body.size, operation⟩
    current := frame } h

/-- The maxima are raised to the new current frame, or stay because it was held before. -/
theorem Advance.maxima_cases (h : body.Advance pool call next) :
    (next.maxStack.toNat = max body.maxStack.toNat next.current.stack.length ∧
      next.maxLocals.toNat = max body.maxLocals.toNat next.current.locals.size) ∨
    (next.maxStack = body.maxStack ∧ next.maxLocals = body.maxLocals ∧
      ∃ earlier, body.Holds earlier ∧ earlier.Agrees next.current) := by
  cases h with
  | @push instruction frame heffect hroom hfits =>
    left
    have hgrown := grown_maxima body.entered (.plain instruction) hfits
    rwa [entered_maxima.1, entered_maxima.2] at hgrown
  | @branch b frame heffect hadmits hroom hfits =>
    left
    have hgrown := grown_maxima (body.expecting b.target? frame).entered (.branch b) hfits
    rwa [entered_maxima.1, entered_maxima.2, (expecting_maxima _).1, (expecting_maxima _).2]
      at hgrown
  | @mark _ label frame hcall horigin =>
    right
    have hheld : body.Holds frame := by
      obtain rfl | hpending | ⟨parent, hparent⟩ := horigin
      · exact .current
      · exact .expected hpending
      · exact .placed hparent
    exact ⟨rfl, rfl, frame, hheld, frame.agrees_placedAt _⟩
  | allocLocal hfits => exact .inl (raised_maxima _ hfits)
  | _ => exact .inr ⟨rfl, rfl, body.current, .current, .refl _⟩

end Advance

/-! ### Runs -/

/-- The maxima are the largest sizes of past frames, and every frame that is held is one of them. -/
structure Gauged (past : List Frame) (body : Body) : Prop where
  recalled : ∀ frame, body.Holds frame → ∃ earlier ∈ past, earlier.Agrees frame
  stack : (past.map fun frame => frame.stack.length).max? = some body.maxStack.toNat
  locals : (past.map fun frame => frame.locals.size).max? = some body.maxLocals.toNat

namespace Gauged

variable {past : List Frame} {body next : Body}

/-- What a body holds fits within its maxima. -/
theorem fits (h : Gauged past body) {frame : Frame} (hframe : body.Holds frame) :
    frame.stack.length ≤ body.maxStack.toNat ∧ frame.locals.size ≤ body.maxLocals.toNat := by
  obtain ⟨earlier, hmem, hlocals, hstack⟩ := h.recalled frame hframe
  rw [← hlocals, ← hstack]
  constructor
  · exact (List.max?_eq_some_iff.mp h.stack).2 _ (List.mem_map_of_mem hmem)
  · exact (List.max?_eq_some_iff.mp h.locals).2 _ (List.mem_map_of_mem hmem)

/-- The past grows by a frame that the maxima already cover or are raised to. -/
theorem append (h : Gauged past body)
    (hholds : ∀ frame, next.Holds frame →
      (∃ earlier, body.Holds earlier ∧ earlier.Agrees frame) ∨ next.current.Agrees frame)
    (hstack : next.maxStack.toNat = max body.maxStack.toNat next.current.stack.length)
    (hlocals : next.maxLocals.toNat = max body.maxLocals.toNat next.current.locals.size) :
    Gauged (past ++ [next.current]) next := by
  refine ⟨fun frame hframe => ?_, ?_, ?_⟩
  · obtain ⟨held, hheld, hagrees⟩ | hagrees := hholds frame hframe
    · obtain ⟨earlier, hmem, hearlier⟩ := h.recalled held hheld
      exact ⟨earlier, List.mem_append_left _ hmem, hearlier.trans hagrees⟩
    · exact ⟨next.current, by simp, hagrees⟩
  · rw [List.map_append, hstack]
    exact max?_concat h.stack _
  · rw [List.map_append, hlocals]
    exact max?_concat h.locals _

theorem advance (h : Gauged past body) {pool : Pool} {call : Call}
    (hnext : body.Advance pool call next) : Gauged (past ++ [next.current]) next := by
  obtain ⟨hstack, hlocals⟩ | ⟨hstack, hlocals, earlier, hheld, hagrees⟩ := hnext.maxima_cases
  · exact h.append (fun _ => hnext.holds_cases) hstack hlocals
  · -- A label has brought back a frame that was held, which the maxima cover.
    have hfits := h.fits hheld
    rw [hagrees.1, hagrees.2] at hfits
    apply h.append (fun _ => hnext.holds_cases)
    · rw [hstack, Nat.max_eq_left hfits.1]
    · rw [hlocals, Nat.max_eq_left hfits.2]

theorem unchanged (h : Gauged past body) : Gauged (past ++ [body.current]) body := by
  have hfits := h.fits .current
  apply h.append (fun frame hframe => .inl ⟨frame, hframe, .refl frame⟩)
  · rw [Nat.max_eq_left hfits.1]
  · rw [Nat.max_eq_left hfits.2]

theorem start {type : MethodType} {flags : Flags .method} {owner : String}
    (h : start type flags owner = .ok body) : Gauged [body.current] body := by
  obtain ⟨maxLocals, hfits, hbody⟩ := bind_eq_ok h
  cases hbody
  obtain ⟨hlocals, rfl⟩ := fitValue_eq_ok_iff.mp hfits
  refine ⟨fun frame hframe => ⟨_, List.mem_singleton_self _, ?_⟩, rfl, ?_⟩
  · cases hframe with
    | current => exact .refl _
    | recorded hmem => rw [List.mem_singleton.mp hmem]; exact .refl _
    | placed hlabel =>
      rw [Std.TreeMap.getElem?_emptyc] at hlabel
      cases hlabel
    | expected hpending =>
      rw [Std.TreeMap.getElem?_emptyc] at hpending
      cases hpending
  · rw [List.map_singleton, List.max?_singleton, UInt16.toNat_ofNat_of_lt' hlocals]

theorem final {s : Body × Pool} {calls : List Call} (hstart : Gauged [s.1.current] s.1)
    (hfits : ∀ step ∈ Run.steps Call.run calls s, ¬ overflows step) :
    Gauged (currents (Run.steps Call.run calls s) (Run.final Call.run calls s).1)
      (Run.final Call.run calls s).1 := by
  refine Run.invariant Call.run (Q := fun step => ¬ overflows step)
    (P := fun made now => Gauged (currents made now.1) now.1) (fun made step hmade hstep => ?_)
    hstart hfits
  rw [currents_append]
  obtain hadvance | hsame := advance_or_unchanged step hstep
  · exact hmade.advance hadvance
  · rw [hsame]
    exact hmade.unchanged

end Gauged

/-- **Exact maxima.** At every point of a run without an overflow, the maxima are the largest number
of values on the stack and the largest number of locals among all the frames that have been current,
from that of the entry on. So every frame that the body holds fits within them: those recorded,
those at labels, and those that jumps expect at labels without a place, also where a label has
replaced the current frame by one of these. -/
theorem maxima_exact {type : MethodType} {flags : Flags .method} {owner : String} {body : Body}
    (hstart : start type flags owner = .ok body) (pool : Pool) (calls : List Call)
    (hfits : ∀ step ∈ Run.steps Call.run calls (body, pool), ¬ overflows step) :
    ∀ made, made <+: calls →
      let now := (Run.final Call.run made (body, pool)).1
      let past := currents (Run.steps Call.run made (body, pool)) now
      past.head? = some (.entry type flags owner) ∧
      (past.map fun frame => frame.stack.length).max? = some now.maxStack.toNat ∧
      (past.map fun frame => frame.locals.size).max? = some now.maxLocals.toNat ∧
      ∀ frame, now.Holds frame →
        frame.stack.length ≤ now.maxStack.toNat ∧ frame.locals.size ≤ now.maxLocals.toNat := by
  rintro made ⟨rest, rfl⟩
  intro now past
  rw [Run.steps_append] at hfits
  have h : Gauged past now := Gauged.final (s := (body, pool)) (.start hstart)
    fun step hmem => hfits step (List.mem_append_left _ hmem)
  refine ⟨?_, h.stack, h.locals, fun _ => h.fits⟩
  rw [← (start_eq_ok hstart).1]
  cases made <;> rfl

/-- Two values are added up, and a label starts over from the two. A call is refused in between. -/
def restartCalls : List Call :=
  [.push (.load .int 0), .push (.pushByte 2), .place ⟨0⟩, .push (.arith .add), .push .swap,
    .branch (.ifZero .eq ⟨1⟩), .allocLocal .int, .branch (.goto ⟨2⟩), .placeFrom ⟨3⟩ ⟨0⟩]

theorem maxima_exact_restart : ∃ body,
    start ⟨[.int], none⟩ (.truncate .method 0x0008) "Hi" = .ok body ∧
    (∀ step ∈ Run.steps Call.run restartCalls (body, .empty), ¬ overflows step) ∧
    let now := (Run.final Call.run restartCalls (body, .empty)).1
    let past := currents (Run.steps Call.run restartCalls (body, .empty)) now
    now.current.stack.length = 2 ∧ now.current.locals.size = 1 ∧
    (past.map fun frame => frame.stack.length).max? = some 2 ∧
    (past.map fun frame => frame.locals.size).max? = some 2 ∧
    ∀ frame, now.Holds frame → frame.stack.length ≤ 2 ∧ frame.locals.size ≤ 2 := by
  have hrun : ∃ body, start ⟨[.int], none⟩ (.truncate .method 0x0008) "Hi" = .ok body ∧
      (∀ step ∈ Run.steps Call.run restartCalls (body, .empty), ¬ overflows step) ∧
      let now := (Run.final Call.run restartCalls (body, .empty)).1
      now.current.stack.length = 2 ∧ now.current.locals.size = 1 ∧ now.maxStack.toNat = 2 ∧
        now.maxLocals.toNat = 2 :=
    ⟨_, rfl, by decide, rfl, rfl, rfl, rfl⟩
  obtain ⟨body, hstart, hfits, hstack, hlocals, hmaxStack, hmaxLocals⟩ := hrun
  obtain ⟨-, hpastStack, hpastLocals, hholds⟩ :=
    maxima_exact hstart .empty restartCalls hfits restartCalls List.prefix_rfl
  rw [hmaxStack] at hpastStack hholds
  rw [hmaxLocals] at hpastLocals hholds
  exact ⟨body, hstart, hfits, hstack, hlocals, hpastStack, hpastLocals, hholds⟩

end Classfile.Body
