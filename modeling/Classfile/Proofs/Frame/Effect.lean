import Classfile.Proofs.Pool.Growth
import Classfile.Frame.Effect

/-!
# What effects depend on

The effect of an operation is given by the types in the frame, not by where the frame stands. Once
it is defined it stays the same in every later pool.
-/

namespace Classfile

/-! ### Where the frame stands -/

namespace Frame

section Agrees

variable {a b c : Frame}

theorem Agrees.refl (a : Frame) : a.Agrees a := ⟨rfl, rfl⟩

theorem Agrees.symm (h : a.Agrees b) : b.Agrees a := ⟨h.1.symm, h.2.symm⟩

theorem Agrees.trans (hab : a.Agrees b) (hbc : b.Agrees c) : a.Agrees c :=
  ⟨hab.1.trans hbc.1, hab.2.trans hbc.2⟩

theorem agrees_placedAt (a : Frame) (offset : UInt16) : a.Agrees (a.placedAt offset) := ⟨rfl, rfl⟩

theorem Agrees.eq_placedAt (h : a.Agrees b) : b = a.placedAt b.offset := by
  obtain ⟨_, _, _⟩ := a
  obtain ⟨_, _, _⟩ := b
  obtain ⟨rfl, rfl⟩ := h
  rfl

end Agrees

variable (frame : Frame) (offset : UInt16)

@[simp]
theorem push_placedAt (type : FieldType) :
    (frame.placedAt offset).push type = (frame.push type).placedAt offset := rfl

@[simp]
theorem clear_placedAt : (frame.placedAt offset).clear = frame.clear.placedAt offset := rfl

@[simp]
theorem localType_placedAt (i : UInt16) :
    (frame.placedAt offset).localType i = frame.localType i := rfl

@[simp]
theorem peek_placedAt : (frame.placedAt offset).peek = frame.peek := rfl

@[simp]
theorem pushResult_placedAt (type : Option FieldType) :
    (frame.placedAt offset).pushResult type = (frame.pushResult type).placedAt offset := by
  cases type <;> rfl

@[simp]
theorem pop_placedAt :
    (frame.placedAt offset).pop = Prod.map id (placedAt · offset) <$> frame.pop := by
  obtain ⟨_, _, _ | ⟨_, _⟩⟩ := frame <;> rfl

@[simp]
theorem popMany_placedAt (count : Nat) :
    (frame.placedAt offset).popMany count = (placedAt · offset) <$> frame.popMany count := by
  unfold popMany placedAt
  split <;> rfl

@[simp]
theorem setLocal_placedAt (i : UInt16) (type : FieldType) :
    (frame.placedAt offset).setLocal i type = (placedAt · offset) <$> frame.setLocal i type := by
  unfold setLocal placedAt
  split
  · rfl
  · split <;> rfl

@[simp]
theorem popArray_placedAt :
    (frame.placedAt offset).popArray = Prod.map id (placedAt · offset) <$> frame.popArray := by
  rw [popArray, pop_placedAt, popArray]
  rcases frame.pop with _ | ⟨array, rest⟩
  · rfl
  · simp only [Functor.map, Except.map, bind, Except.bind, Prod.map]
    cases h : array.component? <;> simp [h]

end Frame

theorem Instruction.effect_placedAt (pool : Pool) (frame : Frame) (offset : UInt16)
    (i : Instruction) :
    i.effect pool (frame.placedAt offset) = (Frame.placedAt · offset) <$> i.effect pool frame := by
  cases i with
  | load slot i => cases slot <;> simp [effect]
  | loadCell cell => cases cell <;> simp [effect]
  | _ => simp [effect]

theorem Branch.effect_placedAt (frame : Frame) (offset : UInt16) (b : Branch) :
    b.effect (frame.placedAt offset) = (Frame.placedAt · offset) <$> b.effect frame := by
  cases b with
  | leave value => cases value <;> simp [effect]
  | _ => simp [effect]

/-! ### The pool -/

namespace Pool

variable {kind : IndexKind} {α : Type} {old new : Pool}

theorem GrowsTo.read (h : old.GrowsTo new) {parse : String → Except DescriptorError α}
    {index : Index kind} {value : α} (hold : old.read parse index = .ok value) :
    new.read parse index = .ok value := by
  unfold Pool.read at hold ⊢
  cases hdescriptor : old.descriptor? index with
  | none => simp [hdescriptor] at hold
  | some descriptor =>
    rw [hdescriptor] at hold
    rw [h.descriptor? hdescriptor]
    exact hold

theorem GrowsTo.fieldType (h : old.GrowsTo new) {index : Index kind} {type : FieldType}
    (hold : old.fieldType index = .ok type) : new.fieldType index = .ok type :=
  h.read hold

theorem GrowsTo.methodType (h : old.GrowsTo new) {index : Index kind} {type : MethodType}
    (hold : old.methodType index = .ok type) : new.methodType index = .ok type :=
  h.read hold

theorem GrowsTo.loadedType (h : old.GrowsTo new) {index : Index .any} {type : FieldType}
    (hold : old.loadedType index = .ok type) : new.loadedType index = .ok type := by
  unfold Pool.loadedType at hold ⊢
  cases hconstant : old.constant? index with
  | none => simp [hconstant] at hold
  | some constant =>
    rw [hconstant] at hold
    rw [h.constant? hconstant]
    exact hold

end Pool

/-- The first step of a computation that succeeds has succeeded. -/
theorem bind_eq_ok {ε α β : Type} {x : Except ε α} {f : α → Except ε β} {b : β}
    (h : x >>= f = .ok b) : ∃ a, x = .ok a ∧ f a = .ok b := by
  cases x with
  | error e => cases h
  | ok a => exact ⟨a, rfl, h⟩

/-- A computation goes on as before if its first step succeeds as before. -/
theorem bind_ok_mono {ε α β : Type} {x y : Except ε α} {f : α → Except ε β} {b : β}
    (hxy : ∀ a, x = .ok a → y = .ok a) (h : x >>= f = .ok b) : y >>= f = .ok b := by
  obtain ⟨a, hx, hf⟩ := bind_eq_ok h
  rw [hxy a hx]
  exact hf

theorem Instruction.effect_mono {old new : Pool} (hgrows : old.GrowsTo new) {frame next : Frame}
    {i : Instruction} (h : i.effect old frame = .ok next) : i.effect new frame = .ok next := by
  cases i with
  | loadConstant constant => exact bind_ok_mono (fun _ => hgrows.loadedType) h
  | getStatic field => exact bind_ok_mono (fun _ => hgrows.fieldType) h
  | getField field => exact bind_ok_mono (fun _ => hgrows.fieldType) h
  | invoke dispatch method => exact bind_ok_mono (fun _ => hgrows.methodType) h
  | new type => exact bind_ok_mono (fun _ => hgrows.fieldType) h
  | newRefArray element => exact bind_ok_mono (fun _ => hgrows.fieldType) h
  | load slot i => cases slot <;> exact h
  | loadCell cell => cases cell <;> exact h
  | _ => exact h

/-! ### Both kinds of operations -/

namespace Operation

def effect (pool : Pool) (frame : Frame) : Operation → Except Fault Frame
  | plain i => i.effect pool frame
  | branch b => b.effect frame

theorem effect_placedAt (pool : Pool) (frame : Frame) (offset : UInt16) (op : Operation) :
    op.effect pool (frame.placedAt offset) =
      (Frame.placedAt · offset) <$> op.effect pool frame := by
  cases op with
  | plain i => exact i.effect_placedAt pool frame offset
  | branch b => exact b.effect_placedAt frame offset

theorem effect_mono {old new : Pool} (hgrows : old.GrowsTo new) {frame next : Frame}
    {op : Operation} (h : op.effect old frame = .ok next) : op.effect new frame = .ok next := by
  cases op with
  | plain i => exact Instruction.effect_mono hgrows h
  | branch b => exact h

theorem effect_agrees {pool : Pool} {a b next : Frame} {op : Operation} (hab : a.Agrees b)
    (h : op.effect pool a = .ok next) :
    ∃ next', op.effect pool b = .ok next' ∧ next.Agrees next' := by
  refine ⟨next.placedAt b.offset, ?_, next.agrees_placedAt _⟩
  rw [hab.eq_placedAt, effect_placedAt, h]
  rfl

end Operation

end Classfile
