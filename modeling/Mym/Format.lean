import Mym.Serialize

/-!
# The format

What a serialized value is, on its own terms: a type byte, then sizes, then data
or children, where every dimension count, dimension, sparse size, index and
child length takes `w` bytes.  `encode 8` is what the serializers write
(`serializeChild_eq`, `serialize_root`), and `encode 4` is the legacy layout that
`MYM_USE_32BIT_DIMS` reads.  The class, the complexity and the number of fields
take four bytes in both.

`Fits w` says that every number of the value can be written in `w` bytes.
-/

namespace Mym

/-- A byte string behind its length. -/
def sized (w : Nat) (bs : Bytes) : Bytes := leBytes w bs.length ++ bs

def dimBytes (w : Nat) (dims : List Nat) : Bytes := leBytes w dims.length ++ wordBytes w dims

def nameBytes (fields : List CStr) : Bytes := (fields.map fun f => f.1 ++ [0]).flatten

def fullBody (w : Nat) (a : FullArray) : Bytes :=
  dimBytes w a.dims ++ leBytes 4 a.classId ++ leBytes 4 (mxComplexity a.im)
    ++ a.re ++ a.im.getD []

def sparseBody (w : Nat) (a : SparseArray) : Bytes :=
  leBytes w a.rows ++ leBytes w a.columns ++ leBytes w a.nzmax
    ++ leBytes 4 (sparseClass a.isLogical).id ++ leBytes 4 (mxComplexity a.im)
    ++ wordBytes w a.jc ++ wordBytes w a.ir ++ a.re ++ a.im.getD []

namespace MxArray

/-- The type byte. -/
def tag : MxArray → UInt8
  | .full _ => idArray
  | .sparse _ => idSparse
  | .struct _ _ _ => idStruct
  | .cell _ _ => idCell
  | .other _ => 0

mutual
/-- What stands behind the type byte. -/
def body (w : Nat) : MxArray → Bytes
  | .full a => fullBody w a
  | .sparse a => sparseBody w a
  | .struct dims fields vals =>
    dimBytes w dims ++ leBytes 4 fields.length ++ nameBytes fields ++ childBytes w vals
  | .cell dims vals => dimBytes w dims ++ childBytes w vals
  | .other _ => []

def childBytes (w : Nat) : List (Option MxArray) → Bytes
  | [] => []
  | none :: vals => sized w (idArray :: fullBody w emptyDouble) ++ childBytes w vals
  | some v :: vals => sized w (tag v :: body w v) ++ childBytes w vals
end

def encode (w : Nat) (v : MxArray) : Bytes := tag v :: body w v

@[simp] theorem childBytes_nil (w : Nat) : childBytes w [] = [] := rfl

theorem childBytes_cons (w : Nat) (o : Option MxArray) (vals : List (Option MxArray)) :
    childBytes w (o :: vals) = sized w (encode w (child o)) ++ childBytes w vals := by
  cases o <;> rfl

/-- The format has room for the numbers of a node: each fits `w` bytes. -/
def NodeFits (w : Nat) : MxArray → Prop
  | .full a => a.dims.length < 256 ^ w ∧ ∀ d ∈ a.dims, d < 256 ^ w
  | .sparse a => a.rows < 256 ^ w ∧ a.columns < 256 ^ w ∧ a.nzmax < 256 ^ w ∧
      (∀ n ∈ a.jc, n < 256 ^ w) ∧ ∀ n ∈ a.ir, n < 256 ^ w
  | .struct dims _ vals => (dims.length < 256 ^ w ∧ ∀ d ∈ dims, d < 256 ^ w) ∧
      ∀ o ∈ vals, (encode w (child o)).length < 256 ^ w
  | .cell dims vals => (dims.length < 256 ^ w ∧ ∀ d ∈ dims, d < 256 ^ w) ∧
      ∀ o ∈ vals, (encode w (child o)).length < 256 ^ w
  | .other _ => True

instance (w : Nat) : DecidablePred (NodeFits w)
  | .full _ => inferInstanceAs (Decidable (_ ∧ _))
  | .sparse _ => inferInstanceAs (Decidable (_ ∧ _ ∧ _ ∧ _ ∧ _))
  | .struct _ _ _ => inferInstanceAs (Decidable (_ ∧ _))
  | .cell _ _ => inferInstanceAs (Decidable (_ ∧ _))
  | .other _ => isTrue trivial

/-- The `int` counters of the decoders, over the dimensions and over the elements of a
container, do not run over. -/
def NodeCounts : MxArray → Prop
  | .struct dims _ _ => dims.length < 2 ^ 31 ∧ dims.prod < 2 ^ 31
  | .cell dims _ => dims.length < 2 ^ 31 ∧ dims.prod < 2 ^ 31
  | _ => True

instance : DecidablePred NodeCounts
  | .struct _ _ _ => inferInstanceAs (Decidable (_ ∧ _))
  | .cell _ _ => inferInstanceAs (Decidable (_ ∧ _))
  | .full _ | .sparse _ | .other _ => isTrue trivial

/-- The serializers know the class of the node. -/
def NodeKnown : MxArray → Prop
  | .other _ => False
  | _ => True

instance : DecidablePred NodeKnown
  | .other _ => isFalse id
  | .full _ | .sparse _ | .struct _ _ _ | .cell _ _ => isTrue trivial

end MxArray

end Mym
