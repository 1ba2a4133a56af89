import Classfile.Proofs.Body.Evolution

/-!
# Offsets of operations

Every operation of a body stands where the one before it ends, after any calls, accepted or not.
-/

namespace Classfile

theorem localPieces_flatten_ne_nil (short long : UInt8) (i : UInt16) :
    (localPieces short long i).flatten ≠ [] := by
  unfold localPieces
  split
  · simp
  · split <;> simp

theorem Instruction.encode_ne_nil (i : Instruction) : i.encode ≠ [] := by
  cases i with
  | load slot i => exact localPieces_flatten_ne_nil _ _ i
  | store slot i => exact localPieces_flatten_ne_nil _ _ i
  | loadConstant i =>
    rw [encode, pieces]
    split <;> simp
  | increment i amount =>
    rw [encode, pieces]
    split <;> simp
  | _ => simp [encode, pieces]

theorem Operation.width_pos (op : Operation) : 0 < op.width := by
  cases op with
  | plain i => exact List.length_pos_iff.mpr i.encode_ne_nil
  | branch b => cases b <;> simp [width, Branch.target?]

/-- The operations stand one after the other, the first at the given offset. -/
def Contiguous : Nat → List Placed → Prop
  | _, [] => True
  | start, placed :: rest =>
    placed.offset = start ∧ Contiguous (start + placed.operation.width) rest

def extent : List Placed → Nat
  | [] => 0
  | placed :: rest => placed.operation.width + extent rest

@[simp]
theorem extent_nil : extent [] = 0 := rfl

@[simp]
theorem extent_cons (placed : Placed) (code : List Placed) :
    extent (placed :: code) = placed.operation.width + extent code := rfl

@[simp]
theorem extent_append (a b : List Placed) : extent (a ++ b) = extent a + extent b := by
  induction a with
  | nil => simp
  | cons placed rest ih => simp [ih, Nat.add_assoc]

theorem contiguous_append {start : Nat} {a b : List Placed} :
    Contiguous start (a ++ b) ↔ Contiguous start a ∧ Contiguous (start + extent a) b := by
  induction a generalizing start with
  | nil => simp [Contiguous]
  | cons placed rest ih =>
    simp only [List.cons_append, Contiguous, ih, extent_cons, and_assoc, Nat.add_assoc]

theorem Contiguous.bounds {start : Nat} {code : List Placed} (h : Contiguous start code)
    {placed : Placed} (hmem : placed ∈ code) :
    start ≤ placed.offset ∧ placed.offset + placed.operation.width ≤ start + extent code := by
  obtain ⟨before, after, rfl⟩ := List.append_of_mem hmem
  obtain ⟨-, hoffset, -⟩ := contiguous_append.mp h
  rw [hoffset, extent_append, extent_cons]
  omega

namespace Body

open Classfile.Action

def WellLaid (body : Body) : Prop := Contiguous 0 body.code.toList

theorem WellLaid.size_eq {body : Body} (h : body.WellLaid) :
    body.size = extent body.code.toList := by
  unfold size
  cases hback : body.code.back? with
  | none => simp [Array.back?_eq_none_iff.mp hback]
  | some last =>
    obtain ⟨before, hcode⟩ := Array.back?_eq_some_iff.mp hback
    rw [WellLaid, hcode, Array.toList_push] at h
    obtain ⟨-, hlast, -⟩ := contiguous_append.mp h
    simp [hcode, hlast]

theorem WellLaid.bounds {body : Body} (h : body.WellLaid) {placed : Placed}
    (hmem : placed ∈ body.code.toList) : placed.offset + placed.operation.width ≤ body.size := by
  have := (Contiguous.bounds h hmem).2
  rw [h.size_eq]
  omega

theorem WellLaid.offset_lt {body : Body} (h : body.WellLaid) {placed : Placed}
    (hmem : placed ∈ body.code.toList) : placed.offset < body.size := by
  have := h.bounds hmem
  have := placed.operation.width_pos
  omega

@[simp]
theorem grown_size (body : Body) (operation : Operation) (frame : Frame) :
    (body.grown operation frame).size = body.size + operation.width := by
  rw [size, grown, raised]
  simp

theorem WellLaid.push {body next : Body} (h : body.WellLaid) {operation : Operation}
    (hcode : next.code = body.code.push ⟨body.size, operation⟩) : next.WellLaid := by
  rw [WellLaid, hcode, Array.toList_push, contiguous_append]
  exact ⟨h, by rw [h.size_eq, Nat.zero_add], trivial⟩

/-! ### Calls keep the layout -/

theorem Evolves.wellLaid {body next : Body} {placed : Option Label}
    (h : Evolves body placed next) (hlaid : body.WellLaid) : next.WellLaid := by
  cases h with
  | keep target frame hnext =>
    rw [WellLaid, hnext.code, expecting_code]
    exact hlaid
  | mark hplaced hfresh hoffset hnext =>
    rw [WellLaid, hnext.code]
    exact hlaid
  | grow operation frame hroom hnext =>
    have hentered : (body.expecting operation.target? frame).entered.WellLaid := by
      rw [WellLaid, entered_code, expecting_code]
      exact hlaid
    exact hentered.push hnext.code

/-- Every call keeps the layout, whatever comes of it. -/
theorem wellLaid_run (call : Call) {s : Body × Pool} (h : s.1.WellLaid) :
    (call.run s).state.1.WellLaid := by
  obtain ⟨reply, hgives⟩ | ⟨e, hfails⟩ := gives_or_fails call.run s
  · exact (advance_of_gives hgives).evolves.wellLaid h
  · exact (evolves_of_fails hfails).wellLaid h

theorem wellLaid_start {type : MethodType} {flags : Flags .method} {owner : String} {body : Body}
    (h : start type flags owner = .ok body) : body.WellLaid := by
  obtain ⟨_, -, hbody⟩ := bind_eq_ok h
  cases hbody
  trivial

theorem wellLaid_final {s : Body × Pool} (h : s.1.WellLaid) (calls : List Call) :
    (Run.final Call.run calls s).1.WellLaid :=
  Run.final_of_kept Call.run (P := fun s => s.1.WellLaid) (fun call _ => wellLaid_run call) h calls

end Body

end Classfile
