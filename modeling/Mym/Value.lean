import Mathlib.Algebra.BigOperators.Group.List.Basic
import Mathlib.Data.List.DropRight
import Mym.Lib.Memory

/-!
# MATLAB values

The part of an `mxArray` that the serializers read: class, dimensions, data,
field names, and the children of struct and cell arrays.  A full array carries
its data as the raw bytes of its real and imaginary parts, and a sparse matrix
its `jc` and `ir` index arrays beside them; both carry the lengths of these as
fields, so an array whose data does not match its shape cannot be built.

A child of a struct or cell array is an `Option`: `mxGetCell` and
`mxGetFieldByNumber` return NULL for an element that was never set.  `norm`
puts the 0-by-0 double there that the serializers write in its place.

Children of a struct array stand element by element, and within an element in
the order of the fields: child `i * nfields + j` is field `j` of element `i`.

MATLAB gives every array at least two dimensions, and none of the further ones ends in ones:
`mxDims` is what becomes of the dimensions an array is created with.
-/

namespace Mym

/-! ### Classes -/

/-- The classes a full array can have. -/
inductive MxClass where
  | logical | char | double | single
  | int8 | uint8 | int16 | uint16 | int32 | uint32 | int64 | uint64
  deriving DecidableEq, Repr

/-- The `mxClassID` of a class. -/
def MxClass.id : MxClass → Nat
  | logical => 3 | char => 4 | double => 6 | single => 7
  | int8 => 8 | uint8 => 9 | int16 => 10 | uint16 => 11
  | int32 => 12 | uint32 => 13 | int64 => 14 | uint64 => 15

/-- What `mxGetElementSize` returns for it. -/
def MxClass.elementSize : MxClass → Nat
  | logical | int8 | uint8 => 1
  | char | int16 | uint16 => 2
  | single | int32 | uint32 => 4
  | double | int64 | uint64 => 8

/-- The class with a given `mxClassID`. -/
def MxClass.ofId : Nat → Option MxClass
  | 3 => some logical | 4 => some char | 6 => some double | 7 => some single
  | 8 => some int8 | 9 => some uint8 | 10 => some int16 | 11 => some uint16
  | 12 => some int32 | 13 => some uint32 | 14 => some int64 | 15 => some uint64
  | _ => none

theorem MxClass.ofId_eq_some {n : Nat} {c : MxClass} (h : ofId n = some c) : n = c.id := by
  unfold ofId at h
  split at h <;> cases h <;> rfl

theorem MxClass.id_lt (c : MxClass) : c.id < 256 ^ 4 := by
  cases c <;> decide

/-- `mxREAL` is 0 and `mxCOMPLEX` is 1. -/
def mxComplexity (im : Option Bytes) : Nat := if im.isSome then 1 else 0

@[simp] theorem mxComplexity_none : mxComplexity none = 0 := rfl

@[simp] theorem mxComplexity_some (b : Bytes) : mxComplexity (some b) = 1 := rfl

theorem mxComplexity_lt (im : Option Bytes) : mxComplexity im < 256 ^ 4 := by
  unfold mxComplexity
  split <;> decide

/-! ### Dimensions -/

/-- The dimensions of an array that is created with these. -/
def mxDims : List Nat → List Nat
  | [] => [0, 0]
  | [m] => [m, 1]
  | m :: n :: dims => m :: n :: dims.rdropWhile (· == 1)

theorem prod_dropWhile_one (dims : List Nat) : (dims.dropWhile (· == 1)).prod = dims.prod := by
  induction dims with
  | nil => rfl
  | cons d dims ih =>
    by_cases hd : d = 1
    · subst hd
      rw [List.dropWhile_cons_of_pos (by simp), ih, List.prod_cons, Nat.one_mul]
    · rw [List.dropWhile_cons_of_neg (by simpa using hd)]

/-- Only an array without dimensions gets a size of its own. -/
theorem prod_mxDims {dims : List Nat} (h : dims ≠ []) : (mxDims dims).prod = dims.prod := by
  match dims with
  | [m] => simp [mxDims]
  | m :: n :: dims =>
    have htail : (dims.rdropWhile (· == 1)).prod = dims.prod := by
      rw [List.rdropWhile, List.prod_reverse, prod_dropWhile_one, List.prod_reverse]
    rw [mxDims, List.prod_cons, List.prod_cons, htail, List.prod_cons, List.prod_cons]

theorem mxDims_mxDims (dims : List Nat) : mxDims (mxDims dims) = mxDims dims := by
  match dims with
  | [] => rfl
  | [m] => rfl
  | m :: n :: dims => rw [mxDims, mxDims, List.rdropWhile_idempotent]

theorem mem_mxDims {dims : List Nat} {d : Nat} (h : d ∈ mxDims dims) : d = 0 ∨ d = 1 ∨ d ∈ dims := by
  match dims with
  | [] => exact Or.inl (by simpa [mxDims] using h)
  | [m] =>
    rcases List.mem_cons.mp h with rfl | h
    · exact Or.inr (Or.inr List.mem_cons_self)
    · exact Or.inr (Or.inl (List.mem_singleton.mp h))
  | m :: n :: dims =>
    refine Or.inr (Or.inr ?_)
    rcases List.mem_cons.mp h with rfl | h
    · exact List.mem_cons_self
    rcases List.mem_cons.mp h with rfl | h
    · exact List.mem_cons_of_mem _ List.mem_cons_self
    · exact List.mem_cons_of_mem _ (List.mem_cons_of_mem _ ((List.rdropWhile_prefix _ _).subset h))

theorem length_mxDims_le (dims : List Nat) : (mxDims dims).length ≤ max dims.length 2 := by
  match dims with
  | [] => exact Nat.le_refl 2
  | [m] => exact Nat.le_refl 2
  | m :: n :: dims =>
    have htail := (List.rdropWhile_prefix (· == 1) dims).length_le
    simp only [mxDims, List.length_cons]
    omega

/-! ### Arrays -/

@[ext] structure FullArray where
  classId : Nat
  elementSize : Nat
  dims : List Nat
  re : Bytes
  im : Option Bytes
  re_length : re.length = elementSize * dims.prod
  im_length : ∀ b ∈ im, b.length = re.length
  deriving DecidableEq

def sparseClass (isLogical : Bool) : MxClass := if isLogical then .logical else .double

@[ext] structure SparseArray where
  isLogical : Bool
  rows : Nat
  columns : Nat
  nzmax : Nat
  jc : List Nat
  ir : List Nat
  re : Bytes
  im : Option Bytes
  jc_length : jc.length = columns + 1
  ir_length : ir.length = nzmax
  re_length : re.length = (sparseClass isLogical).elementSize * nzmax
  im_length : ∀ b ∈ im, b.length = re.length
  /-- MATLAB has no complex logical matrix. -/
  im_logical : isLogical = true → im = none
  deriving DecidableEq

inductive MxArray where
  | full (a : FullArray)
  | sparse (a : SparseArray)
  | struct (dims : List Nat) (fields : List CStr) (vals : List (Option MxArray))
  | cell (dims : List Nat) (vals : List (Option MxArray))
  /-- a value of a class the serializers do not know, such as a function handle -/
  | other (classId : Nat)

namespace MxArray

/-- Induction on a value: what holds of a container's children holds of it. -/
theorem ind {P : MxArray → Prop} (full : ∀ a, P (.full a)) (sparse : ∀ a, P (.sparse a))
    (struct : ∀ dims fields vals, (∀ v, some v ∈ vals → P v) → P (.struct dims fields vals))
    (cell : ∀ dims vals, (∀ v, some v ∈ vals → P v) → P (.cell dims vals))
    (other : ∀ c, P (.other c)) : ∀ v, P v
  | .full a => full a
  | .sparse a => sparse a
  | .struct dims fields vals =>
    struct dims fields vals fun v _ => ind full sparse struct cell other v
  | .cell dims vals => cell dims vals fun v _ => ind full sparse struct cell other v
  | .other c => other c
decreasing_by
  all_goals
    have := List.sizeOf_lt_of_mem (by assumption : some v ∈ vals)
    simp only [Option.some.sizeOf_spec, MxArray.struct.sizeOf_spec,
      MxArray.cell.sizeOf_spec] at this ⊢
    omega

mutual
/-- `p` holds at every node. -/
def All (p : MxArray → Prop) : MxArray → Prop
  | .full a => p (.full a)
  | .sparse a => p (.sparse a)
  | .struct dims fields vals => p (.struct dims fields vals) ∧ AllIn p vals
  | .cell dims vals => p (.cell dims vals) ∧ AllIn p vals
  | .other c => p (.other c)

def AllIn (p : MxArray → Prop) : List (Option MxArray) → Prop
  | [] => True
  | none :: vals => AllIn p vals
  | some v :: vals => All p v ∧ AllIn p vals
end

theorem allIn_iff {p : MxArray → Prop} {vals : List (Option MxArray)} :
    AllIn p vals ↔ ∀ v, some v ∈ vals → All p v := by
  induction vals with
  | nil => simp [AllIn]
  | cons o vals ih =>
    cases o with
    | none => simp [AllIn, ih]
    | some v => simp [AllIn, ih]

theorem All.node {p : MxArray → Prop} {v : MxArray} (h : All p v) : p v := by
  cases v with
  | full a => exact h
  | sparse a => exact h
  | struct dims fields vals => exact h.1
  | cell dims vals => exact h.1
  | other c => exact h

theorem All.imp {p q : MxArray → Prop} (hpq : ∀ v, p v → q v) :
    ∀ v, All p v → All q v := by
  intro v
  induction v using ind with
  | full a => exact hpq _
  | sparse a => exact hpq _
  | struct dims fields vals ih =>
    exact fun h => ⟨hpq _ h.1, allIn_iff.mpr fun v hv => ih v hv (allIn_iff.mp h.2 v hv)⟩
  | cell dims vals ih =>
    exact fun h => ⟨hpq _ h.1, allIn_iff.mpr fun v hv => ih v hv (allIn_iff.mp h.2 v hv)⟩
  | other c => exact hpq _

mutual
def decidableAll (p : MxArray → Prop) [DecidablePred p] : ∀ v, Decidable (All p v)
  | .full a => inferInstanceAs (Decidable (p (.full a)))
  | .sparse a => inferInstanceAs (Decidable (p (.sparse a)))
  | .struct dims fields vals =>
    have := decidableAllIn p vals
    inferInstanceAs (Decidable (p (.struct dims fields vals) ∧ AllIn p vals))
  | .cell dims vals =>
    have := decidableAllIn p vals
    inferInstanceAs (Decidable (p (.cell dims vals) ∧ AllIn p vals))
  | .other c => inferInstanceAs (Decidable (p (.other c)))

def decidableAllIn (p : MxArray → Prop) [DecidablePred p] :
    ∀ vals : List (Option MxArray), Decidable (AllIn p vals)
  | [] => isTrue trivial
  | none :: vals => decidableAllIn p vals
  | some v :: vals =>
    have := decidableAll p v
    have := decidableAllIn p vals
    inferInstanceAs (Decidable (All p v ∧ AllIn p vals))
end

instance (p : MxArray → Prop) [DecidablePred p] : DecidablePred (All p) := decidableAll p

instance (p : MxArray → Prop) [DecidablePred p] : DecidablePred (AllIn p) := decidableAllIn p

/-! ### Missing children -/

/-- The 0-by-0 double that stands in for a missing child. -/
def emptyDouble : FullArray where
  classId := MxClass.double.id
  elementSize := MxClass.double.elementSize
  dims := [0, 0]
  re := []
  im := none
  re_length := rfl
  im_length := by simp

mutual
/-- The value with every missing child replaced by a 0-by-0 double. -/
def norm : MxArray → MxArray
  | .full a => .full a
  | .sparse a => .sparse a
  | .struct dims fields vals => .struct dims fields (normIn vals)
  | .cell dims vals => .cell dims (normIn vals)
  | .other c => .other c

def normIn : List (Option MxArray) → List (Option MxArray)
  | [] => []
  | none :: vals => some (.full emptyDouble) :: normIn vals
  | some v :: vals => some (norm v) :: normIn vals
end

/-- What a child is serialized as. -/
def child : Option MxArray → MxArray
  | none => .full emptyDouble
  | some v => v

theorem normIn_eq_map (vals : List (Option MxArray)) :
    normIn vals = vals.map fun o => some (child o).norm := by
  induction vals with
  | nil => rfl
  | cons o vals ih =>
    cases o with
    | none => rw [normIn, ih]; rfl
    | some v => rw [normIn, ih]; rfl

/-! ### Shapes -/

/-- A dimension vector that MATLAB gives an array: it fits the address space, and its numbers fit
`mwSize`. -/
def DimsFit (dims : List Nat) : Prop :=
  mxDims dims = dims ∧ dims.length < 2 ^ 60 ∧ ∀ d ∈ dims, d < 2 ^ 64

instance (dims : List Nat) : Decidable (DimsFit dims) := inferInstanceAs (Decidable (_ ∧ _ ∧ _))

theorem DimsFit.ne_nil {dims : List Nat} (h : DimsFit dims) : dims ≠ [] := by
  rintro rfl
  cases h.1

/-- The sizes of one node are those MATLAB can give it: a full array is of a known class
and its data fits the address space, indices and dimensions fit `mwSize`, the number of
fields and the length of a field name fit `int`, and a container has a child for every
element and field. -/
def Shaped : MxArray → Prop
  | .full a => DimsFit a.dims ∧ a.elementSize * a.dims.prod < 2 ^ 63 ∧
      (MxClass.ofId a.classId).map MxClass.elementSize = some a.elementSize
  | .sparse a => a.rows < 2 ^ 64 ∧ a.columns < 2 ^ 60 ∧ a.nzmax < 2 ^ 60 ∧
      (∀ n ∈ a.jc, n < 2 ^ 64) ∧ ∀ n ∈ a.ir, n < 2 ^ 64
  | .struct dims fields vals => DimsFit dims ∧ dims.prod < 2 ^ 64 ∧ fields.length < 2 ^ 31 ∧
      (∀ f ∈ fields, f.1.length < 2 ^ 31) ∧ vals.length = dims.prod * fields.length
  | .cell dims vals => DimsFit dims ∧ dims.prod < 2 ^ 64 ∧ vals.length = dims.prod
  | .other _ => True

instance : DecidablePred Shaped
  | .full _ => inferInstanceAs (Decidable (_ ∧ _ ∧ _))
  | .sparse _ => inferInstanceAs (Decidable (_ ∧ _ ∧ _ ∧ _ ∧ _))
  | .struct _ _ _ => inferInstanceAs (Decidable (_ ∧ _ ∧ _ ∧ _ ∧ _))
  | .cell _ _ => inferInstanceAs (Decidable (_ ∧ _ ∧ _))
  | .other _ => isTrue trivial

end MxArray

end Mym
