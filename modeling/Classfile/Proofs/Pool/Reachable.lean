import Classfile.Proofs.Pool.Denotation
import Classfile.Proofs.Registry
import Classfile.Proofs.Run

/-!
# Reachable pools

All that happens to a pool is that constants are added to it. Whatever every addition does to a pool
is done by all requests and by lowering, so it is proved of single additions only. In this way a
pool that was empty at first is never too large to be written, and is known by its constants and
their order.
-/

namespace Classfile.Pool

open Classfile.Action

/-! ### What is done by adding constants -/

section Adding

variable {R : Pool → Pool → Prop} [Trans R R R] (hadd : ∀ constant, Moves R (add constant))
include hadd

theorem moves_addClass (name : String) : Moves R (addClass name) :=
  moves_bind (hadd _) fun _ => hadd _

theorem moves_addNameAndType (name descriptor : String) :
    Moves R (addNameAndType name descriptor) :=
  moves_bind (hadd _) fun _ => moves_bind (hadd _) fun _ => hadd _

variable [Std.Refl R]

theorem moves_toAttribute (body : Layout.AttributeBody) : Moves R body.toAttribute :=
  moves_bind (hadd _) fun _ => moves_bind (moves_ofExcept _) fun _ => moves_pure _

theorem moves_run (addition : Addition) : Moves R addition.run := by
  cases addition with
  | utf8 text => exact moves_bind (hadd _) fun _ => moves_pure _
  | integer value => exact hadd _
  | type name => exact moves_bind (moves_addClass hadd name) fun _ => moves_pure _
  | string text =>
    have hstring : Moves R (addString text) := moves_bind (hadd _) fun _ => hadd _
    exact moves_bind hstring fun _ => moves_pure _
  | nameAndType name descriptor =>
    exact moves_bind (moves_addNameAndType hadd name descriptor) fun _ => moves_pure _
  | fieldRef owner name descriptor =>
    have hfield : Moves R (addFieldRef owner name descriptor) :=
      moves_bind (moves_addClass hadd owner) fun _ =>
        moves_bind (moves_addNameAndType hadd name descriptor) fun _ => hadd _
    exact moves_bind hfield fun _ => moves_pure _
  | methodRef owner name descriptor =>
    have hmethod : Moves R (addMethodRef owner name descriptor) :=
      moves_bind (moves_addClass hadd owner) fun _ =>
        moves_bind (moves_addNameAndType hadd name descriptor) fun _ => hadd _
    exact moves_bind hmethod fun _ => moves_pure _
  | attributeOf body => exact moves_bind (moves_toAttribute hadd body) fun _ => moves_pure _

theorem moves_verification (type : FieldType) : Moves R type.verification := by
  unfold FieldType.verification
  split
  · split
    · exact moves_pure _
    · exact moves_fail _
  · exact moves_bind (moves_addClass hadd _) fun _ =>
      moves_bind (moves_report _) fun _ => moves_pure _

theorem moves_compress (frames : List Frame) : Moves R (StackMap.compress frames) := by
  unfold StackMap.compress
  split
  · exact moves_bind (moves_report _) fun _ => moves_fail _
  · exact moves_traverse (fun _ => moves_bind (moves_report _) fun _ =>
      moves_bind (moves_traverse (moves_verification hadd) _) fun _ =>
        moves_bind (moves_traverse (moves_verification hadd) _) fun _ => moves_pure _) _

theorem moves_stackMap (frames : Array Frame) : Moves R (StackMap.lower frames) :=
  moves_bind (moves_compress hadd _) fun _ => moves_toAttribute hadd _

theorem moves_innerClasses (list : InnerClasses) : Moves R list.lower :=
  moves_bind (moves_traverse (fun _ => moves_bind (moves_addClass hadd _) fun _ =>
    moves_bind (moves_addClass hadd _) fun _ => moves_bind (hadd _) fun _ => moves_pure _) _)
      fun _ => moves_toAttribute hadd _

end Adding

/-! ### Pools that were empty at first -/

/-- The pool is what requests have made of the empty one. -/
def Reachable (pool : Pool) : Prop := ∃ additions, pool = Run.final Addition.run additions .empty

/-- What holds of the empty pool and is kept when a constant is added holds of reachable pools. -/
theorem Reachable.induction {P : Pool → Prop} {pool : Pool} (h : pool.Reachable) (hempty : P .empty)
    (hadd : ∀ constant, Moves (Preserves P) (add constant)) : P pool := by
  obtain ⟨additions, rfl⟩ := h
  exact Run.final_of_kept Addition.run (moves_run hadd) hempty additions

/-- All constants have an index. -/
def Bounded (pool : Pool) : Prop := pool.size ≤ capacity

theorem bounded_add (constant : Constant) : Moves (Preserves Bounded) (add constant) := by
  intro pool hpool
  obtain ⟨_, -, h⟩ | ⟨-, hroom, -, h⟩ | ⟨-, -, h⟩ := add_cases constant pool
  · rwa [h]
  · rw [Bounded, ← Registry.length_toList, h, List.length_append]
    exact hroom
  · rwa [h]

theorem Reachable.bounded {pool : Pool} (h : pool.Reachable) : pool.Bounded :=
  h.induction (Nat.zero_le _) bounded_add

theorem Bounded.within {pool : Pool} (h : pool.Bounded) : pool.Within pool.toList :=
  ⟨List.prefix_rfl, Nat.lt_succ_of_le h⟩

theorem grown_add (constant : Constant) : Moves (Preserves Registry.Grown) (add constant) := by
  intro pool hpool
  unfold add
  split
  · exact hpool
  · next fresh =>
    dsimp only
    split
    · exact hpool.push fresh
    · exact hpool

theorem Reachable.grown {pool : Pool} (h : pool.Reachable) : Registry.Grown pool :=
  h.induction (P := Registry.Grown) rfl grown_add

/-- Reachable pools with the same constants in the same order are the same. -/
theorem Reachable.eq {a b : Pool} (ha : a.Reachable) (hb : b.Reachable) (h : a.toList = b.toList) :
    a = b :=
  ha.grown.eq hb.grown h

end Classfile.Pool
