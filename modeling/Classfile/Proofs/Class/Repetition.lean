import Classfile.Class.Lowering
import Classfile.Proofs.Body.Assembly
import Classfile.Proofs.Pool.Growth
import Mathlib.Tactic.Simps.Basic

/-!
# Generating a class again

A class file can be generated at any time, and nothing of the class changes but the pool, which may
grow, and the frames handed to the stack maps. What the first attempt has left is found by the
second, so that both come to the same end, be it a class file or an error.
-/

namespace Classfile

open Classfile.Action Pool

/-! ### Members -/

theorem repeats_field (field : Field) : Repeats GrowsTo field.lower :=
  (repeats_addUtf8 _).bind fun _ => (repeats_addUtf8 _).bind fun _ => repeats_pure _

namespace Method

variable {pool pool' : Pool} {e : Error}

theorem gives_lowerBody_some {body : Body} {next : Option Body}
    {attributes : List Layout.Attribute} :
    Gives lowerBody (some body, pool) attributes (next, pool') ↔
      ∃ a last, Gives Body.lowerAttribute (body, pool) a (last, pool') ∧ attributes = [a] ∧
        next = some last := by
  rcases h : Body.lowerAttribute (body, pool) with ⟨e | a, ⟨last, mid⟩, events⟩
  · simp [Gives, lowerBody, h, Except.map]
  · simp only [Gives, lowerBody, h, Except.map, Except.ok.injEq, Prod.mk.injEq]
    constructor
    · rintro ⟨rfl, rfl, rfl⟩
      exact ⟨a, last, ⟨rfl, rfl, rfl⟩, rfl, rfl⟩
    · rintro ⟨_, _, ⟨rfl, rfl, rfl⟩, rfl, rfl⟩
      exact ⟨rfl, rfl, rfl⟩

theorem fails_lowerBody_some {body : Body} {next : Option Body} :
    Fails lowerBody (some body, pool) e (next, pool') ↔
      ∃ last, Fails Body.lowerAttribute (body, pool) e (last, pool') ∧ next = some last := by
  rcases h : Body.lowerAttribute (body, pool) with ⟨e | a, ⟨last, mid⟩, events⟩
  · simp only [Fails, lowerBody, h, Except.map, Except.error.injEq, Prod.mk.injEq]
    constructor
    · rintro ⟨rfl, rfl, rfl⟩
      exact ⟨last, ⟨rfl, rfl, rfl⟩, rfl⟩
    · rintro ⟨_, ⟨rfl, rfl, rfl⟩, rfl⟩
      exact ⟨rfl, rfl, rfl⟩
  · simp [Fails, lowerBody, h, Except.map]

/-- Hands the frames of the body to its stack map. -/
def settleBody (body : Option Body) : Option Body := body.map Body.settle

theorem settleBody_settleBody (body : Option Body) :
    settleBody (settleBody body) = settleBody body := by
  cases body with
  | none => rfl
  | some body => exact congrArg some body.settle_settle

instance : Trans (Perhaps settleBody) (Perhaps settleBody) (Perhaps settleBody) :=
  ⟨Perhaps.trans settleBody_settleBody⟩

theorem perhaps_some {body : Body} {later : Option Body} :
    Perhaps settleBody (some body) later ↔ ∃ last, later = some last ∧
      Perhaps Body.settle body last := by
  constructor
  · rintro (rfl | rfl)
    · exact ⟨body, rfl, .inl rfl⟩
    · exact ⟨body.settle, rfl, .inr rfl⟩
  · rintro ⟨last, rfl, rfl | rfl⟩
    · exact .inl rfl
    · exact .inr rfl

theorem repeats_lowerBody : Repeats (Both (Perhaps settleBody) GrowsTo) lowerBody where
  moves := by
    rintro ⟨body | body, pool⟩
    · exact Std.Refl.refl _
    · have hmoves := Body.repeats_lowerAttribute.moves (body, pool)
      exact ⟨perhaps_some.mpr ⟨_, rfl, hmoves.1⟩, hmoves.2⟩
  gives := by
    rintro ⟨body | body, pool⟩ attributes ⟨next, pool'⟩ ⟨last, later⟩ h hlater
    · obtain ⟨⟨rfl⟩, ⟨⟩⟩ := h
      obtain ⟨rfl | rfl, -⟩ := hlater <;> exact ⟨rfl, rfl⟩
    · obtain ⟨a, next, ha, rfl, rfl⟩ := gives_lowerBody_some.mp h
      obtain ⟨last, rfl, hlast⟩ := perhaps_some.mp hlater.1
      have hagain : Gives Body.lowerAttribute (last, later) a (last, later) :=
        Body.repeats_lowerAttribute.gives ha ⟨hlast, hlater.2⟩
      exact gives_lowerBody_some.mpr ⟨a, last, hagain, rfl, rfl⟩
  fails := by
    rintro ⟨body | body, pool⟩ e ⟨next, pool'⟩ h
    · cases h.1
    · obtain ⟨last, hlast, rfl⟩ := fails_lowerBody_some.mp h
      exact fails_lowerBody_some.mpr ⟨last, Body.repeats_lowerAttribute.fails hlast, rfl⟩

theorem repeats_lowerParts (method : Method) :
    Repeats (Both (Perhaps settleBody) GrowsTo) method.lowerParts :=
  (repeats_onSnd (repeats_addUtf8 _)).bind fun _ =>
    (repeats_onSnd (repeats_addUtf8 _)).bind fun _ =>
    repeats_lowerBody.bind fun _ => repeats_pure _

def withBody (method : Method) (body : Option Body) : Method := { method with body }

def settle (method : Method) : Method := method.withBody (settleBody method.body)

theorem settle_settle (method : Method) : method.settle.settle = method.settle :=
  congrArg method.withBody (settleBody_settleBody method.body)

instance : Trans (Perhaps settle) (Perhaps settle) (Perhaps settle) :=
  ⟨Perhaps.trans settle_settle⟩

theorem perhaps_withBody {method later : Method} {body : Option Body} :
    Perhaps settle (method.withBody body) later ↔
      ∃ last, later = method.withBody last ∧ Perhaps settleBody body last := by
  constructor
  · rintro (rfl | rfl)
    · exact ⟨body, rfl, .inl rfl⟩
    · exact ⟨settleBody body, rfl, .inr rfl⟩
  · rintro ⟨last, rfl, rfl | rfl⟩
    · exact .inl rfl
    · exact .inr rfl

theorem gives_lower {method next : Method} {lowered : Layout.Method} :
    Gives lower (method, pool) lowered (next, pool') ↔
      ∃ body, Gives method.lowerParts (method.body, pool) lowered (body, pool') ∧
        next = method.withBody body := by
  constructor
  · rintro ⟨hresult, hstate⟩
    obtain ⟨rfl, rfl⟩ := Prod.mk.inj hstate
    exact ⟨_, ⟨hresult, rfl⟩, rfl⟩
  · rintro ⟨body, ⟨hresult, hstate⟩, rfl⟩
    exact ⟨hresult, congrArg (fun state => (method.withBody state.1, state.2)) hstate⟩

theorem fails_lower {method next : Method} :
    Fails lower (method, pool) e (next, pool') ↔
      ∃ body, Fails method.lowerParts (method.body, pool) e (body, pool') ∧
        next = method.withBody body := by
  constructor
  · rintro ⟨hresult, hstate⟩
    obtain ⟨rfl, rfl⟩ := Prod.mk.inj hstate
    exact ⟨_, ⟨hresult, rfl⟩, rfl⟩
  · rintro ⟨body, ⟨hresult, hstate⟩, rfl⟩
    exact ⟨hresult, congrArg (fun state => (method.withBody state.1, state.2)) hstate⟩

/-- The parts of a method but its body are read and not changed. -/
theorem repeats_lower : Repeats (Both (Perhaps settle) GrowsTo) lower where
  moves := by
    rintro ⟨method, pool⟩
    have hmoves := (repeats_lowerParts method).moves (method.body, pool)
    exact ⟨perhaps_withBody.mpr ⟨_, rfl, hmoves.1⟩, hmoves.2⟩
  gives := by
    rintro ⟨method, pool⟩ lowered ⟨next, pool'⟩ ⟨last, later⟩ h hlater
    obtain ⟨body, hbody, rfl⟩ := gives_lower.mp h
    obtain ⟨last, rfl, hlast⟩ := perhaps_withBody.mp hlater.1
    have hagain : Gives method.lowerParts (last, later) lowered (last, later) :=
      (repeats_lowerParts method).gives hbody ⟨hlast, hlater.2⟩
    exact gives_lower.mpr ⟨last, hagain, rfl⟩
  fails := by
    rintro ⟨method, pool⟩ e ⟨next, pool'⟩ h
    obtain ⟨body, hbody, rfl⟩ := fails_lower.mp h
    exact fails_lower.mpr ⟨body, (repeats_lowerParts method).fails hbody, rfl⟩

end Method

/-! ### Classes -/

namespace Class

variable {α : Type}

/-- The later class has a larger pool, and stack maps that were given frames. -/
inductive Settles (c : Class) : Class → Prop where
  | intro (methods : Array Method)
      (same : methods.map Method.key = c.methods.entries.map Method.key)
      (pool : Pool) (grows : c.pool.GrowsTo pool)
      (settles : List.Forall₂ (Perhaps Method.settle) c.methods.toList methods.toList) :
      Settles c { c with methods := c.methods.replace methods same, pool }

theorem Settles.grows {c later : Class} (h : c.Settles later) : c.pool.GrowsTo later.pool := by
  cases h
  assumption

theorem Settles.methods {c later : Class} (h : c.Settles later) :
    List.Forall₂ (Perhaps Method.settle) c.methods.toList later.methods.toList := by
  cases h
  assumption

instance : Std.Refl Settles :=
  ⟨fun c => .intro c.methods.entries rfl c.pool (.refl _) (List.forall₂_refl _)⟩

instance : Trans Settles Settles Settles where
  trans hab hbc := by
    obtain ⟨_, same, _, grows, settles⟩ := hab
    obtain ⟨methods, same', pool, grows', settles'⟩ := hbc
    exact .intro methods (same'.trans same) pool (grows.trans grows')
      (forall₂_trans settles settles')

@[simps]
def withPool (c : Class) (pool : Pool) : Class := { c with pool }

theorem gives_onPool {x : Action Pool α} {c c' : Class} {a : α} :
    Gives (onPool x) c a c' ↔ ∃ pool, Gives x c.pool a pool ∧ c.withPool pool = c' := by
  simp [Gives, onPool, withPool]

theorem fails_onPool {x : Action Pool α} {c c' : Class} {e : Error} :
    Fails (onPool x) c e c' ↔ ∃ pool, Fails x c.pool e pool ∧ c.withPool pool = c' := by
  simp [Fails, onPool, withPool]

theorem repeats_onPool {x : Action Pool α} (h : Repeats GrowsTo x) :
    Repeats Settles (onPool x) where
  moves c := .intro c.methods.entries rfl _ (h.moves c.pool) (List.forall₂_refl _)
  gives hgives hlater := by
    obtain ⟨pool, ha, rfl⟩ := gives_onPool.mp hgives
    exact gives_onPool.mpr ⟨_, h.gives ha hlater.grows, rfl⟩
  fails hfails := by
    obtain ⟨pool, he, rfl⟩ := fails_onPool.mp hfails
    exact fails_onPool.mpr ⟨_, h.fails he, rfl⟩

/-- Methods that stay as they are leave the class as it is. -/
theorem state_lowerMethods_eq_self {c : Class}
    (h : (traverseStates Method.lower (c.methods.toList, c.pool)).state =
      (c.methods.toList, c.pool)) : (lowerMethods c).state = c := by
  have hentries : (lowerMethods c).state.methods.entries = c.methods.entries := by
    change (traverseStates Method.lower (c.methods.toList, c.pool)).state.1.toArray = _
    rw [h, Registry.toList, Array.toArray_toList]
  have hmethods : (lowerMethods c).state.methods = c.methods := Registry.ext hentries rfl
  have hpool : (lowerMethods c).state.pool = c.pool := congrArg Prod.snd h
  calc (lowerMethods c).state
      = { c with methods := (lowerMethods c).state.methods, pool := (lowerMethods c).state.pool } :=
        rfl
    _ = c := by rw [hmethods, hpool]

theorem repeats_lowerMethods : Repeats Settles lowerMethods where
  moves c := by
    have hmoves := (repeats_traverseStates Method.repeats_lower).moves (c.methods.toList, c.pool)
    exact .intro _ _ _ hmoves.2 hmoves.1
  gives {c lowered c' later} h hlater := by
    have hgives : Gives (traverseStates Method.lower) (c.methods.toList, c.pool) lowered
        (c'.methods.toList, c'.pool) := ⟨h.1, h.2 ▸ rfl⟩
    have hagain : Gives (traverseStates Method.lower) (later.methods.toList, later.pool) lowered
        (later.methods.toList, later.pool) :=
      (repeats_traverseStates Method.repeats_lower).gives hgives ⟨hlater.methods, hlater.grows⟩
    exact ⟨hagain.1, state_lowerMethods_eq_self hagain.2⟩
  fails {c e c'} h := by
    have hfails : Fails (traverseStates Method.lower) (c.methods.toList, c.pool) e
        (c'.methods.toList, c'.pool) := ⟨h.1, h.2 ▸ rfl⟩
    have hagain := (repeats_traverseStates Method.repeats_lower).fails hfails
    exact ⟨hagain.1, state_lowerMethods_eq_self hagain.2⟩

theorem repeats_lowerAttributes (c : Class) : Repeats GrowsTo c.lowerAttributes := by
  unfold lowerAttributes
  split
  · exact repeats_pure _
  · exact (repeats_innerClasses _).bind fun _ => repeats_pure _

/-- Neither the methods nor the pool are looked at. -/
theorem repeatable_kept_bind {β : Type} {f : Class → α} {g : α → Action Class β}
    (hf : ∀ (c : Class) methods pool, f { c with methods, pool } = f c)
    (hg : ∀ c, Repeatable Settles (g (f c))) : Repeatable Settles (gets f >>= g) := by
  refine repeatable_gets_bind (fun c later h => ?_) hg
  obtain ⟨methods, same, pool, -, -⟩ := h
  exact hf c _ pool

theorem repeatable_lower : Repeatable Settles lower :=
  repeatable_kept_bind (fun _ _ _ => rfl) fun _ =>
    (repeats_onPool (repeats_addClass _)).bind_repeatable fun _ =>
    repeatable_kept_bind (fun _ _ _ => rfl) fun _ =>
    (repeats_onPool (repeats_addClass _)).bind_repeatable fun _ =>
    repeatable_kept_bind (fun _ _ _ => rfl) fun _ =>
    (repeats_onPool (repeats_traverse repeats_addClass _)).bind_repeatable fun _ =>
    repeatable_kept_bind (fun _ _ _ => rfl) fun _ =>
    (repeats_onPool (repeats_traverse repeats_field _)).bind_repeatable fun _ =>
    repeats_lowerMethods.bind_repeatable fun _ =>
    repeatable_kept_bind (fun _ _ _ => rfl) fun c =>
    (repeats_onPool (repeats_lowerAttributes c)).bind_repeatable fun _ => repeatable_gets _

theorem repeatable_generate : Repeatable Settles generate :=
  repeatable_lower.bind fun _ => moves_bind (moves_ofExcept _) fun _ =>
    moves_bind (moves_gets _) fun _ => moves_bind (moves_report _) fun _ => moves_pure _

/-- A second attempt to generate the class file ends as the first one did, and leaves the class as
the first one left it. That is as it was before, but for new constants at the end of the pool and
for stack maps that hold the frames of their bodies. -/
theorem generate_again (c : Class) :
    let first := generate c
    let second := generate first.state
    second.result = first.result ∧ second.state = first.state ∧
    c.pool.toList <+: first.state.pool.toList ∧
    ∃ methods same,
      first.state = { c with
        methods := c.methods.replace methods same
        pool := first.state.pool } ∧
      List.Forall₂ (fun before after => after = before ∨ after = { before with
        body := before.body.map fun body => { body with
          table := body.table.map fun _ => body.frames } }) c.methods.toList methods.toList := by
  have hsettles : c.Settles (generate c).state := repeatable_generate.moves c
  refine ⟨repeatable_generate.result_eq c, repeatable_generate.state_eq c, hsettles.grows, ?_⟩
  generalize (generate c).state = later at hsettles
  obtain ⟨methods, same, pool, -, hmethods⟩ := hsettles
  exact ⟨methods, same, rfl, hmethods⟩

end Class

end Classfile
