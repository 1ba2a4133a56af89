import Classfile.Proofs.Descriptor
import Classfile.Proofs.Frame.Effect
import Classfile.Proofs.Pool.Room

/-!
# What operands mean

An instruction names a member or a class by an index, and its effect is read from the descriptor to
which the index leads. An index leads to the descriptor of what it was made from, and a descriptor
is read back as the type it was rendered from, unless that is an array whose dimensions wrap around.
So an instruction has the types that its operand was added with, however the pool has grown since.
-/

namespace Classfile

open Classfile.Action Descriptor

/-! ### Names of classes -/

theorem descriptorOfClass_eq_render {name : String} (h : name.toList.head? ≠ some '[') :
    Pool.descriptorOfClass name = (FieldType.object name).render := by
  change _ = String.ofList ('L' :: name.toList ++ [';'])
  rw [Pool.descriptorOfClass, if_neg h, ← String.toList_inj]
  simp

namespace FieldType

variable {type : FieldType}

theorem element_array (type : FieldType) : type.array.element = type.element := by
  cases type <;> rfl

theorem component?_array_iff : type.array.component? = some type ↔ type.Counted := by
  cases type with
  | bare element => exact ⟨fun _ => trivial, fun _ => rfl⟩
  | nested extra element =>
    have hzero : extra + 1 = 0 ↔ extra = 0xFFFFFFFFFFFFFFFF :=
      UInt64.add_left_inj 1 (b := 0xFFFFFFFFFFFFFFFF)
    simp only [array, component?, Counted, Option.some.injEq, hzero]
    split <;> simp_all

section Named

variable (hnamed : type.WellNamed)
include hnamed

/-- A reference type is described by the class that it is named by. -/
theorem descriptorOfClass_className (hreference : type.base? = none) (hcounted : type.Counted) :
    Pool.descriptorOfClass type.className = type.render := by
  -- The name of an array type is its descriptor; that of a class needs `L` and `;` around it.
  cases type with
  | bare element =>
    cases element with
    | base base => cases hreference
    | object name =>
      refine descriptorOfClass_eq_render fun hhead => ?_
      exact (hnamed.2 '[' (List.mem_of_head? hhead)).2.1 rfl
  | nested extra element =>
    have hhead : (nested extra element).render.toList.head? = some '[' := by
      rw [render, descriptor, hcounted.toNat_dims]
      simp [List.replicate_succ]
    exact if_pos hhead

/-- Without its brackets the descriptor of an array is taken for the name of a class, which only a
single letter can be. -/
theorem eq_object_of_parse_className (hlargest : ¬ type.Counted) {found : FieldType}
    (h : FieldType.parse (Pool.descriptorOfClass type.className) = .ok found) :
    ∃ base, type.element = .base base ∧ found = .object (String.singleton base.letter) := by
  cases type with
  | bare element => exact absurd trivial hlargest
  | nested extra element =>
    obtain rfl : extra = 0xFFFFFFFFFFFFFFFF := Decidable.not_not.mp hlargest
    change FieldType.parse (Pool.descriptorOfClass (String.ofList element.descriptor)) = _ at h
    cases element with
    | base base =>
      rw [descriptorOfClass_eq_render (by cases base <;> decide),
        parse_render_field (by cases base <;> decide)] at h
      cases h
      exact ⟨base, rfl, rfl⟩
    | object name =>
      have hlonger : (FieldType.object ("L" ++ name)).WellNamed := by
        refine ⟨by simp, ?_⟩
        simpa using hnamed.2
      have htext : Pool.descriptorOfClass (String.ofList (Element.object name).descriptor) =
          (FieldType.object ("L" ++ name)).render ++ ";" := by
        rw [descriptorOfClass_eq_render (by simp [Element.descriptor]), ← String.toList_inj]
        simp [object, render, descriptor, dims, FieldType.element, Element.descriptor]
      rw [htext] at h
      have hread := parse_eq_ok_iff.mp h
      rw [readField_render_append hlonger] at hread
      cases hread

theorem counted_of_parse_className {found : FieldType}
    (h : FieldType.parse (Pool.descriptorOfClass type.className) = .ok found)
    (harray : found.array = type.array) : type.Counted := by
  by_contra hlargest
  obtain ⟨base, hbase, rfl⟩ := eq_object_of_parse_className hnamed hlargest h
  have helement := congrArg element harray
  rw [element_array, element_array, hbase] at helement
  cases helement

theorem parse_className (hreference : type.base? = none) (hcounted : type.Counted) :
    FieldType.parse (Pool.descriptorOfClass type.className) = .ok type := by
  rw [descriptorOfClass_className hnamed hreference hcounted, parse_render_field hnamed,
    spelled_eq_self_iff.mpr hcounted]

end Named

end FieldType

theorem gives_verification {type : FieldType} (hreference : type.base? = none) {pool later : Pool}
    {index : Index .type} (h : Gives (Pool.addClass type.className) pool index later) :
    Gives type.verification pool (.object index) later := by
  simp only [FieldType.verification, hreference]
  rw [gives_bind]
  exact ⟨index, later, h, gives_report_bind.mpr (gives_pure.mpr ⟨rfl, rfl⟩)⟩

namespace Pool

variable {kind : IndexKind} {pool : Pool}

/-! ### Descriptors of requests -/

/-- The descriptor of the value that the requested constant stands for. -/
def Addition.descriptor? : Addition → Option String
  | utf8 _ | attributeOf _ => none
  | integer _ => some "I"
  | string _ => some "Ljava/lang/String;"
  | type name => some (descriptorOfClass name)
  | nameAndType _ descriptor => some descriptor
  | fieldRef _ _ descriptor => some descriptor
  | methodRef _ _ descriptor => some descriptor

theorem textAt?_toList (pool : Pool) (index : Index .utf8) :
    textAt? pool.toList index = pool.text? index := by
  rw [Classfile.textAt?, constantAt?_toList]
  rfl

theorem memberDescriptor?_of_memberAt? {index : Index .nameAndType} {name descriptor : String}
    (h : memberAt? pool.toList index = some (name, descriptor)) :
    pool.memberDescriptor? index = some descriptor := by
  obtain ⟨first, second, hpair, -, hdescriptor⟩ := memberAt?_eq_some_iff.mp h
  rw [constantAt?_toList] at hpair
  rw [textAt?_toList] at hdescriptor
  simp only [memberDescriptor?, hpair, hdescriptor]

/-- An index leads to the descriptor of what it was made from. -/
theorem descriptor?_of_madeFrom? {index : Index kind} {addition : Addition}
    (h : madeFrom? pool.toList index.untyped = some addition) :
    pool.descriptor? index = addition.descriptor? := by
  obtain ⟨constant, hconstant, hmade⟩ := Option.bind_eq_some_iff.mp h
  have hindex : pool.constant? index = some constant :=
    (constantAt?_toList pool index.untyped).symm.trans hconstant
  rw [descriptor?, hindex]
  cases rebuild?_eq_some_iff.mp hmade with
  | utf8 => rfl
  | integer => rfl
  | string => rfl
  | type hname =>
    rw [textAt?_toList] at hname
    simp only [hname, Option.map_some, Addition.descriptor?]
  | nameAndType _ hdescriptor =>
    rw [textAt?_toList] at hdescriptor
    exact hdescriptor
  | fieldRef _ hmember => exact memberDescriptor?_of_memberAt? hmember
  | methodRef _ hmember => exact memberDescriptor?_of_memberAt? hmember

/-! ### Later pools -/

theorem bounded_final (additions : List Addition) (h : pool.Bounded) :
    (Run.final Addition.run additions pool).Bounded :=
  Run.final_of_kept Addition.run (moves_run bounded_add) h additions

section Later

variable (addition : Addition) {x : Action Pool (Index kind)} {index : Index kind}
  (hx : addition.run = do return (← x).untyped) (hserves : Serves addition x)
  (hpool : pool.Reachable) (hindex : (x pool).result = .ok index) (more : List Addition)
include hx hserves hpool hindex

/-- An index that was returned leads to what it was asked for, whatever is asked for after it. -/
theorem descriptor?_final :
    (Run.final Addition.run more (x pool).state).descriptor? index = addition.descriptor? := by
  have hstate : (x pool).state = (addition.run pool).state := by rw [hx, state_bind_pure]
  have hbounded : (x pool).state.Bounded := by
    rw [hstate]
    exact moves_run bounded_add addition pool hpool.bounded
  apply descriptor?_of_madeFrom?
  exact hserves (gives_of_result hindex)
    ((growsTo_final more _).within (bounded_final more hbounded).within)

theorem read_final_iff {α : Type} {parse : String → Except DescriptorError α} {descriptor : String}
    {value : α} (hdescriptor : addition.descriptor? = some descriptor) :
    (Run.final Addition.run more (x pool).state).read parse index = .ok value ↔
      parse descriptor = .ok value := by
  simp only [read, descriptor?_final addition hx hserves hpool hindex more, hdescriptor]
  cases parse descriptor <;> simp

end Later

end Pool

/-! ### Effects -/

/-- A call takes its arguments, and the object it is made on unless the method is static. -/
def MethodType.taken (type : MethodType) (dispatch : Dispatch) : Nat :=
  if dispatch = .static then type.parameters.length else type.parameters.length + 1

theorem MethodType.taken_spelled (type : MethodType) (dispatch : Dispatch) :
    type.spelled.taken dispatch = type.taken dispatch := by
  simp [taken, spelled]

namespace Instruction

variable {pool : Pool} {frame : Frame}

/-- Instructions that push a type to which their operand leads. -/
theorem push_eq_iff {found : Except Fault FieldType} {type : FieldType} :
    (do return frame.push (← found)) =
      (.ok { frame with stack := type :: frame.stack } : Except Fault Frame) ↔
      found = .ok type := by
  cases found with
  | error fault => exact ⟨nofun, nofun⟩
  | ok found => simp [Frame.push, bind, Except.bind, pure, Except.pure]

/-- Instructions that put such a type in place of the top of the stack. -/
theorem replace_eq_iff {found : Except Fault FieldType} {f : FieldType → FieldType}
    {type top : FieldType} {rest : List FieldType} (hstack : frame.stack = top :: rest) :
    (do
      let type ← found
      return (← frame.pop).2.push (f type)) =
      (.ok { frame with stack := type :: rest } : Except Fault Frame) ↔
      ∃ source, found = .ok source ∧ f source = type := by
  cases found with
  | error fault => simp [bind, Except.bind]
  | ok found => simp [Frame.push, Frame.pop, hstack, bind, Except.bind, pure, Except.pure]

theorem effect_getStatic_iff {field : Index .fieldRef} {type : FieldType} :
    (getStatic field).effect pool frame = .ok { frame with stack := type :: frame.stack } ↔
      pool.fieldType field = .ok type :=
  push_eq_iff

theorem effect_new_iff {index : Index .type} {type : FieldType} :
    (new index).effect pool frame = .ok { frame with stack := type :: frame.stack } ↔
      pool.fieldType index = .ok type :=
  push_eq_iff

theorem effect_getField_iff {field : Index .fieldRef} {type top : FieldType}
    {rest : List FieldType} (hstack : frame.stack = top :: rest) :
    (getField field).effect pool frame = .ok { frame with stack := type :: rest } ↔
      pool.fieldType field = .ok type := by
  rw [effect]
  refine (replace_eq_iff (f := id) hstack).trans ?_
  simp

theorem effect_newRefArray_iff {index : Index .type} {type top : FieldType}
    {rest : List FieldType} (hstack : frame.stack = top :: rest) :
    (newRefArray index).effect pool frame = .ok { frame with stack := type :: rest } ↔
      ∃ element, pool.fieldType index = .ok element ∧ element.array = type :=
  replace_eq_iff hstack

theorem effect_invoke {dispatch : Dispatch} {method : Index .methodRef} {type : MethodType}
    (h : pool.methodType method = .ok type) :
    (invoke dispatch method).effect pool frame =
      if type.taken dispatch ≤ frame.stack.length then
        .ok { frame with stack := type.result.toList ++ frame.stack.drop (type.taken dispatch) }
      else .error .emptyStack := by
  have htaken : type.parameters.length + dispatch.receivers = type.taken dispatch := by
    cases dispatch <;> rfl
  simp only [effect, h, bind, Except.bind, Frame.popMany, htaken]
  by_cases hstack : type.taken dispatch ≤ frame.stack.length
  · rw [if_pos hstack, if_pos hstack]
    cases type.result <;> rfl
  · rw [if_neg hstack, if_neg hstack]

/-- The elements of an array of a type have that type, if the dimensions can be counted. -/
theorem effect_loadCell_array_iff {type position : FieldType} {rest : List FieldType}
    (hstack : frame.stack = position :: type.array :: rest) :
    (loadCell .ref).effect pool frame = .ok { frame with stack := type :: rest } ↔
      type.Counted := by
  simp only [effect, Frame.pop, Frame.popArray, hstack, bind, Except.bind]
  rw [← FieldType.component?_array_iff]
  cases type.array.component? <;> simp [Frame.push, pure, Except.pure]

end Instruction

/-- The type of arrays of arrays of a class, and of a method that takes and returns such arrays. -/
def gridType : FieldType := .nested 1 (.object "q/B")

def gridMethod : MethodType := ⟨[.int, gridType], some gridType⟩

end Classfile
