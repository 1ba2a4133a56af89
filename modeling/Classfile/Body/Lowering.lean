import Classfile.Body.Basic
import Classfile.StackMap

/-!
# Lowering of bodies

Once all labels have a place, every jump gets its distance. The frames are then handed to the stack
map, if there is one, and the map is written. A body can be lowered again after it has grown.
-/

namespace Classfile.Body

/-- Bytes of an operation in the finished body. -/
def resolve (body : Body) (placed : Placed) : Except Error (List UInt8) :=
  match placed.operation.target? with
  | none => .ok (placed.operation.encode 0)
  | some label =>
    match body.labelOffset? label with
    | none => .error (.unplacedLabel label)
    | some target =>
      let distance : Int := (target.toNat : Int) - (placed.offset : Int)
      if -0x8000 ≤ distance ∧ distance ≤ 0x7FFF then
        .ok (placed.operation.encode (Int16.ofInt distance))
      else .error (.jumpOverflow placed.offset target.toNat)

/-- All bytes with the distances filled in. The first jump without distance is reported. -/
def assemble (body : Body) : Except Error (List UInt8) :=
  (body.code.toList.mapM body.resolve).map List.flatten

/-- Hands the frames to the stack map. -/
def settle (body : Body) : Body := { body with table := body.table.map fun _ => body.frames }

def lowerAttributes (body : Body) : Action Pool (List Layout.Attribute) :=
  match body.table with
  | none => return []
  | some frames => return [← StackMap.lower frames]

def lower : Action (Body × Pool) Layout.Code := do
  let bytes ← Action.ofExcept (← Action.gets fun (body, _) => body.assemble)
  Action.onFst (Action.modify settle)
  let body ← Action.gets Prod.fst
  let attributes ← Action.onSnd body.lowerAttributes
  Action.report
    (.codeLowered bytes.length body.jumps.length body.maxStack body.maxLocals)
  return ⟨body.maxStack, body.maxLocals, ⟨bytes⟩, attributes⟩

/-- The lowered body as an attribute. -/
def lowerAttribute : Action (Body × Pool) Layout.Attribute := do
  let code ← lower
  Action.onSnd (Layout.AttributeBody.code code).toAttribute

end Classfile.Body
