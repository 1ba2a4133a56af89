import Classfile.Proofs.Class.Call

/-!
# Methods apart from each other

A call on the body of a method sees that method and the pool. It changes nothing but the body, and
the pool stays as it is, unless the call asks for a constant. So what a run does to one method is
what the calls on that method do alone, and calls on different methods may be made in any order.
-/

namespace Classfile

open Classfile.Action

variable {σ α : Type}

/-! ### What leaves the pool alone -/

/-- The pool stays as it is, also if the action fails. -/
abbrev KeepsPool (x : Action (σ × Pool) α) : Prop :=
  ∀ pool, Moves (Preserves fun s => s.2 = pool) x

theorem keepsPool_onFst (x : Action σ α) : KeepsPool (onFst x) := fun _ _ h => h

theorem keepsPool_onFstWith (x : Pool → Action σ α) : KeepsPool (onFstWith x) := fun _ _ h => h

theorem Body.keepsPool_call {call : Body.Call} (hcall : ∀ addition, call ≠ .addConstant addition) :
    KeepsPool call.run := by
  intro pool
  cases call with
  | push instruction => exact moves_bind (keepsPool_onFstWith _ pool) fun _ => moves_pure _
  | addConstant addition => exact absurd rfl (hcall addition)
  | _ => exact moves_bind (keepsPool_onFst _ pool) fun _ => moves_pure _

theorem Method.key_withBody (body : Option Body) (method : Method) :
    (method.withBody body).key = method.key := rfl

namespace Class

variable {name : String} {type : MethodType} {c d : Class}

theorem keepsPool_emitBody {x : Action (Body × Pool) α} (hx : KeepsPool x) (method : Method) :
    KeepsPool (emitBody x method) := by
  intro pool
  have hsome : Moves (Preserves fun s => s.2 = pool) (onSome x) := by
    rintro ⟨body | body, found⟩ hfound
    · exact hfound
    · exact hx pool (body, found) hfound
  exact moves_bind (keepsPool_onFst _ pool) fun _ => hsome

/-! ### What classes share -/

/-- The classes share the pool and the method with the key. -/
structure Agree (key : MemberKey) (c d : Class) : Prop where
  pool : c.pool = d.pool
  method : c.methods.locate? key = d.methods.locate? key

namespace Agree

variable {key : MemberKey} {e : Class}

theorem refl (key : MemberKey) (c : Class) : Agree key c c := ⟨rfl, rfl⟩

theorem symm (h : Agree key c d) : Agree key d c := ⟨h.pool.symm, h.method.symm⟩

theorem trans (hcd : Agree key c d) (hde : Agree key d e) : Agree key c e :=
  ⟨hcd.pool.trans hde.pool, hcd.method.trans hde.method⟩

end Agree

/-- The classes differ in the bodies of their methods, and in nothing else. -/
structure Framed (c d : Class) : Prop where
  slots : d.methods.slots = c.methods.slots
  rest : d = c.withMethods d.methods c.pool

namespace Framed

variable {e : Class}

theorem refl (c : Class) : Framed c c := ⟨rfl, rfl⟩

theorem trans (hcd : Framed c d) (hde : Framed d e) : Framed c e := by
  refine ⟨hde.slots.trans hcd.slots, ?_⟩
  rw [hde.rest, hcd.rest]
  rfl

/-- Classes that differ in bodies only are the same if they share every method. -/
theorem eq (hd : Framed c d) (he : Framed c e) (hagree : ∀ key, Agree key d e) : d = e := by
  have hmethods : d.methods = e.methods :=
    Registry.eq_of_locate? (hd.slots.trans he.slots.symm) fun key => (hagree key).method
  rw [hd.rest, he.rest, hmethods]

end Framed

/-! ### One body -/

section OnBody

variable {x : Method → Action (Option Body × Pool) α}

theorem state_onBody {position : Nat} {method : Method}
    (h : c.methods.locate? ⟨name, type.render⟩ = some (position, method)) :
    let outcome := x method (method.body, c.pool)
    (onBody name type x c).state =
      c.withMethods (c.methods.modify position (fun other => other.withBody outcome.state.1)
        (Method.key_withBody outcome.state.1)) outcome.state.2 := by
  simp only [onBody, h]
  rfl

theorem state_onBody_missing (h : c.methods.locate? ⟨name, type.render⟩ = none) :
    (onBody name type x c).state = c := by
  simp only [onBody, h]

/-- All that an action on the body of a method sees is shared. -/
theorem Agree.onBody (h : Agree ⟨name, type.render⟩ c d) :
    (onBody name type x c).result = (onBody name type x d).result ∧
      Agree ⟨name, type.render⟩ (onBody name type x c).state (onBody name type x d).state := by
  cases hc : c.methods.locate? ⟨name, type.render⟩ with
  | none =>
    have hd := h.method.symm.trans hc
    rw [result_onBody_missing hc, result_onBody_missing hd, state_onBody_missing hc,
      state_onBody_missing hd]
    exact ⟨rfl, h⟩
  | some entry =>
    have hd := h.method.symm.trans hc
    rw [result_onBody hc, result_onBody hd, state_onBody hc, state_onBody hd, h.pool]
    exact ⟨rfl, rfl, (Registry.locate?_modify (Method.key_withBody _) hc).trans
      (Registry.locate?_modify (Method.key_withBody _) hd).symm⟩

variable (hx : ∀ method, KeepsPool (x method))
include hx

/-- If the pool stays, all that changes is the body of the method. -/
theorem onBody_cases (c : Class) :
    (onBody name type x c).state = c ∨ ∃ position method body,
      c.methods.locate? ⟨name, type.render⟩ = some (position, method) ∧
      (onBody name type x c).state = c.withMethods (c.methods.modify position
        (fun other => other.withBody body) (Method.key_withBody body)) c.pool := by
  cases hc : c.methods.locate? ⟨name, type.render⟩ with
  | none => exact .inl (state_onBody_missing hc)
  | some entry =>
    obtain ⟨position, method⟩ := entry
    have hpool := hx method c.pool (method.body, c.pool) rfl
    have hstate := state_onBody (x := x) hc
    dsimp only at hpool hstate
    rw [hpool] at hstate
    exact .inr ⟨position, method, _, rfl, hstate⟩

theorem pool_onBody (c : Class) : (onBody name type x c).state.pool = c.pool := by
  obtain h | ⟨position, method, body, -, h⟩ := onBody_cases hx c
  · rw [h]
  · rw [h, withMethods_pool]

theorem agree_onBody {key : MemberKey} (hkey : key ≠ ⟨name, type.render⟩) (c : Class) :
    Agree key (onBody name type x c).state c := by
  refine ⟨pool_onBody hx c, ?_⟩
  obtain h | ⟨position, method, body, hlocate, h⟩ := onBody_cases hx c
  · rw [h]
  · rw [h, withMethods_methods]
    exact Registry.locate?_modify_of_ne (Method.key_withBody body) hlocate hkey

theorem framed_onBody (c : Class) : Framed c (onBody name type x c).state := by
  obtain h | ⟨position, method, body, -, h⟩ := onBody_cases hx c
  · rw [h]
    exact .refl c
  · rw [h]
    exact ⟨rfl, rfl⟩

end OnBody

/-! ### Calls on the bodies of a class -/

/-- A call on the body of a method, which is created if there is none. -/
structure Turn where
  name : String
  type : MethodType
  call : Body.Call

namespace Turn

def key (turn : Turn) : MemberKey := ⟨turn.name, turn.type.render⟩

def run (turn : Turn) : Action Class Body.Reply := emitCode turn.name turn.type turn.call.run

/-- The call asks for no constant. -/
def Plain (turn : Turn) : Prop := ∀ addition, turn.call ≠ .addConstant addition

theorem Plain.keepsPool {turn : Turn} (h : turn.Plain) (method : Method) :
    KeepsPool (emitBody turn.call.run method) :=
  keepsPool_emitBody (Body.keepsPool_call h) method

/-- What came of the calls on one method. -/
def replies (key : MemberKey) (steps : List (Run.Step Class Turn)) :
    List (Except Error Body.Reply) :=
  (steps.filter fun step => step.call.key = key).map fun step => (step.outcome run).result

theorem replies_cons_of_pos {key : MemberKey} {step : Run.Step Class Turn}
    (h : step.call.key = key) (steps : List (Run.Step Class Turn)) :
    replies key (step :: steps) = (step.outcome run).result :: replies key steps := by
  rw [replies, List.filter_cons_of_pos (by simpa using h), List.map_cons, replies]

theorem replies_cons_of_neg {key : MemberKey} {step : Run.Step Class Turn}
    (h : step.call.key ≠ key) (steps : List (Run.Step Class Turn)) :
    replies key (step :: steps) = replies key steps := by
  rw [replies, List.filter_cons_of_neg (by simpa using h), replies]

/-- For a method, a run is the same as if only the calls on this method were made. -/
theorem agree_final {key : MemberKey} {turns : List Turn} (hturns : ∀ turn ∈ turns, turn.Plain)
    (h : Agree key c d) :
    let own := turns.filter fun turn => turn.key = key
    replies key (Run.steps run turns c) = replies key (Run.steps run own d) ∧
      Agree key (Run.final run turns c) (Run.final run own d) := by
  -- The induction is on the mixed run. The other run stands still at calls on other methods.
  induction turns generalizing c d with
  | nil => exact ⟨rfl, h⟩
  | cons turn rest ih =>
    have hrest : ∀ turn ∈ rest, turn.Plain :=
      fun other hmem => hturns other (List.mem_cons_of_mem _ hmem)
    by_cases hkey : turn.key = key
    · rw [List.filter_cons_of_pos (by simpa using hkey)]
      dsimp only [Run.steps, Run.final]
      rw [replies_cons_of_pos hkey, replies_cons_of_pos hkey]
      subst hkey
      obtain ⟨hresult, hnext⟩ := h.onBody (x := emitBody turn.call.run)
      obtain ⟨hreplies, hfinal⟩ := ih hrest hnext
      exact ⟨congrArg₂ List.cons hresult hreplies, hfinal⟩
    · have hother : Agree key (turn.run c).state c :=
        agree_onBody (hturns turn List.mem_cons_self).keepsPool (Ne.symm hkey) c
      obtain ⟨hreplies, hfinal⟩ := ih hrest (hother.trans h)
      rw [List.filter_cons_of_neg (by simpa using hkey), Run.steps, replies_cons_of_neg hkey]
      exact ⟨hreplies, hfinal⟩

theorem framed_final {turns : List Turn} (hturns : ∀ turn ∈ turns, turn.Plain) (c : Class) :
    Framed c (Run.final run turns c) :=
  Run.state_invariant run (P := Framed c) (Q := fun step => step.call.Plain)
    (fun step hbefore hplain => hbefore.trans (framed_onBody hplain.keepsPool step.before))
    (.refl c) fun step hstep => hturns step.call (Run.call_mem run hstep)

/-- **Methods apart from each other.** Two runs of calls that ask for no constant are made on the
same class. If the calls on each method come in the same order in both, they get the same replies,
however they are mixed with the calls on other methods. The runs end in the same class, from which
the same bytes are generated, and no call changes the pool, whether it is accepted or not. -/
theorem final_of_interleaved (c : Class) {first second : List Turn}
    (hsame : ∀ key, (first.filter fun turn => turn.key = key) =
      second.filter fun turn => turn.key = key)
    (hplain : ∀ turn ∈ first, turn.Plain) :
    (∀ key, replies key (Run.steps run first c) = replies key (Run.steps run second c)) ∧
    Run.final run first c = Run.final run second c ∧
    generate (Run.final run first c) = generate (Run.final run second c) ∧
    ∀ turn ∈ first, ∀ d : Class, (turn.run d).state.pool = d.pool := by
  have hplain' : ∀ turn ∈ second, turn.Plain := by
    intro turn hmem
    have hown : turn ∈ second.filter fun other => other.key = turn.key :=
      List.mem_filter.mpr ⟨hmem, by simp⟩
    rw [← hsame] at hown
    exact hplain turn (List.mem_filter.mp hown).1
  have hruns : ∀ key, replies key (Run.steps run first c) = replies key (Run.steps run second c) ∧
      Agree key (Run.final run first c) (Run.final run second c) := by
    -- Both runs are compared with the run of the calls on this method alone, which they share.
    intro key
    obtain ⟨hreplies, hagree⟩ := agree_final hplain (Agree.refl key c)
    obtain ⟨hreplies', hagree'⟩ := agree_final hplain' (Agree.refl key c)
    rw [hsame key] at hreplies hagree
    exact ⟨hreplies.trans hreplies'.symm, hagree.trans hagree'.symm⟩
  have hfinal : Run.final run first c = Run.final run second c :=
    (framed_final hplain c).eq (framed_final hplain' c) fun key => (hruns key).2
  refine ⟨fun key => (hruns key).1, hfinal, congrArg generate hfinal, fun turn hmem d => ?_⟩
  exact pool_onBody (hplain turn hmem).keepsPool d

/-- A class with two methods that have no bodies yet. -/
def twoMethods : Class :=
  Run.final Call.run [.method "f" ⟨[], none⟩ (.truncate .method 0x0008),
    .method "g" ⟨[.int], none⟩ (.truncate .method 0x0008)]
    (start "A" "java/lang/Object" (.truncate .type 0x0021))

/-- There is nothing to drop, and then a jump to a label that is numbered from 0. -/
def jumpTurns : List Turn :=
  [.push .pop, .freshLabel, .branch (.goto ⟨0⟩), .place ⟨0⟩].map (⟨"f", ⟨[], none⟩, ·⟩)

/-- A label with the same number is placed twice. -/
def labelTurns : List Turn :=
  [.freshLabel, .push (.pushByte 1), .place ⟨0⟩, .place ⟨0⟩].map (⟨"g", ⟨[.int], none⟩, ·⟩)

/-- One call on each method in turn. -/
def mixedTurns : List Turn := (labelTurns.zip jumpTurns).flatMap fun (label, jump) => [label, jump]

theorem final_of_interleaved_mixed : ∃ e e',
    Run.final run (jumpTurns ++ labelTurns) twoMethods = Run.final run mixedTurns twoMethods ∧
    replies ⟨"f", "()V"⟩ (Run.steps run mixedTurns twoMethods) =
      [.error e, .ok (.label ⟨0⟩), .ok .done, .ok .done] ∧
    replies ⟨"g", "(I)V"⟩ (Run.steps run mixedTurns twoMethods) =
      [.ok (.label ⟨0⟩), .ok .done, .ok .done, .error e'] := by
  have hsame : ∀ key, ((jumpTurns ++ labelTurns).filter fun turn => turn.key = key) =
      mixedTurns.filter fun turn => turn.key = key := by
    intro key
    by_cases hf : key = ⟨"f", "()V"⟩
    · subst hf
      rfl
    · by_cases hg : key = ⟨"g", "(I)V"⟩
      · subst hg
        rfl
      · have hnone : ∀ turns : List Turn,
            (∀ turn ∈ turns, turn.key = ⟨"f", "()V"⟩ ∨ turn.key = ⟨"g", "(I)V"⟩) →
            (turns.filter fun turn => turn.key = key) = [] := by
          intro turns hkeys
          rw [List.filter_eq_nil_iff]
          intro turn hmem
          obtain hturn | hturn := hkeys turn hmem
          · simpa [hturn] using Ne.symm hf
          · simpa [hturn] using Ne.symm hg
        rw [hnone _ (by decide), hnone _ (by decide)]
  have hplain : ∀ turn ∈ jumpTurns ++ labelTurns, turn.Plain := by
    simp [jumpTurns, labelTurns, Plain]
  obtain ⟨e, he⟩ : ∃ e, replies ⟨"f", "()V"⟩
      (Run.steps run (jumpTurns ++ labelTurns) twoMethods) =
      [.error e, .ok (.label ⟨0⟩), .ok .done, .ok .done] := ⟨_, rfl⟩
  obtain ⟨e', he'⟩ : ∃ e, replies ⟨"g", "(I)V"⟩
      (Run.steps run (jumpTurns ++ labelTurns) twoMethods) =
      [.ok (.label ⟨0⟩), .ok .done, .ok .done, .error e] := ⟨_, rfl⟩
  obtain ⟨hreplies, hfinal, -⟩ := final_of_interleaved twoMethods hsame hplain
  exact ⟨e, e', hfinal, (hreplies _).symm.trans he, (hreplies _).symm.trans he'⟩

end Turn

end Class

end Classfile
