import Mym.Format

/-!
# The serializers write the format

Each serializer returns exactly `encode 8` of its argument behind the head, and the
size it reports is the number of these bytes (`serializeFull_eq`,
`serializeSparse_eq`, `serializeStruct_eq`, `serializeCell_eq`, and
`serializeChild_eq` for the children).  So the check that raises
`notEnoughAllocated` never fires.

`NodeLoops` is what all the `int` counters of the code ask for: the number of
dimensions, of elements, and in a struct array of fields of all elements, is below
`2 ^ 31`.
-/

namespace Mym

open MxArray

/-- The loop counters, of the serializers too, do not run over at a node. -/
def MxArray.NodeLoops : MxArray → Prop
  | .struct dims fields vals =>
    NodeCounts (.struct dims fields vals) ∧ fields.length * dims.prod < 2 ^ 31
  | v => NodeCounts v

instance : DecidablePred MxArray.NodeLoops
  | .struct _ _ _ => inferInstanceAs (Decidable (_ ∧ _))
  | .full a => inferInstanceAs (Decidable (NodeCounts (.full a)))
  | .sparse a => inferInstanceAs (Decidable (NodeCounts (.sparse a)))
  | .cell dims vals => inferInstanceAs (Decidable (NodeCounts (.cell dims vals)))
  | .other c => inferInstanceAs (Decidable (NodeCounts (.other c)))

theorem MxArray.NodeLoops.counts {v : MxArray} (h : NodeLoops v) : NodeCounts v := by
  cases v with
  | struct dims fields vals => exact h.1
  | _ => exact h

/-- The bytes and the size of a serialization that is sound. -/
def Serial.of (bytes : Bytes) : Serial := ⟨bytes, bytes.length⟩

theorem length_headBytes (rhead : Bool) :
    (headBytes rhead).length = if rhead then idMatlab.length + 1 else 0 := by
  cases rhead <;> rfl

/-! ### Leaves -/

theorem readBytes_self {bs : Bytes} {n : Nat} (h : bs.length = n) :
    (readBytes bs 0 n : Result _) = .ok ⟨bs, h⟩ :=
  readBytes_of_at (at_self bs) h

theorem copyImag_eq (a : FullArray) :
    copyImag a.im (a.elementSize * a.dims.prod) = .ok (a.im.getD []) := by
  cases h : a.im with
  | none => rfl
  | some b =>
    have hb : b.length = a.elementSize * a.dims.prod := (a.im_length b h).trans a.re_length
    rw [copyImag, readBytes_self hb]
    rfl

theorem length_imData (a : FullArray) :
    (a.im.getD []).length = if a.im.isSome then a.elementSize * a.dims.prod else 0 := by
  cases h : a.im with
  | none => rfl
  | some b => simpa [a.re_length] using a.im_length b h

theorem serializeFull_eq (a : FullArray) (rhead : Bool) :
    serializeFull a rhead = .ok (.of (headBytes rhead ++ encode 8 (.full a))) := by
  have hw : headBytes rhead ++ [idArray] ++ leBytes sizeofUint64 a.dims.length
      ++ wordBytes sizeofUint64 a.dims ++ leBytes sizeofInt a.classId
      ++ leBytes sizeofInt (mxComplexity a.im) ++ a.re ++ a.im.getD []
      = headBytes rhead ++ encode 8 (.full a) := by
    simp only [encode, tag, body, fullBody, dimBytes, sizeofUint64, sizeofInt, List.append_assoc,
      List.nil_append, List.cons_append]
  unfold serializeFull serializeArray
  simp only [readBytes_self a.re_length, Outcome.ok_bind, copyImag_eq, hw]
  rw [if_neg ?_]
  · rfl
  · rw [← hw]
    simp only [List.length_append, length_headBytes, List.length_singleton, length_leBytes,
      length_wordBytes, sizeofUint64, sizeofInt, a.re_length, length_imData]
    split <;> split <;> omega

theorem length_sparseImData (a : SparseArray) :
    (a.im.getD []).length
      = if a.im.isSome then (sparseClass a.isLogical).elementSize * a.nzmax else 0 := by
  cases h : a.im with
  | none => rfl
  | some b => simpa [a.re_length] using a.im_length b h

theorem serializeSparse_eq (a : SparseArray) (rhead : Bool) :
    serializeSparse a rhead = .ok (.of (headBytes rhead ++ encode 8 (.sparse a))) := by
  have hw : headBytes rhead ++ [idSparse] ++ leBytes sizeofUint64 a.rows
      ++ leBytes sizeofUint64 a.columns ++ leBytes sizeofUint64 a.nzmax
      ++ leBytes sizeofInt (sparseClass a.isLogical).id ++ leBytes sizeofInt (mxComplexity a.im)
      ++ wordBytes sizeofUint64 a.jc ++ wordBytes sizeofUint64 a.ir ++ a.re ++ a.im.getD []
      = headBytes rhead ++ encode 8 (.sparse a) := by
    simp only [encode, tag, body, sparseBody, sizeofUint64, sizeofInt, List.append_assoc,
      List.nil_append, List.cons_append]
  unfold serializeSparse
  simp only [hw]
  rw [if_neg ?_]
  · rfl
  · rw [← hw]
    simp only [List.length_append, length_headBytes, List.length_singleton, length_leBytes,
      length_wordBytes, sizeofUint64, sizeofInt, a.re_length, a.jc_length, a.ir_length,
      length_sparseImData]
    split <;> split <;> omega

/-! ### Containers -/

/-- The partial serializations of a list of children. -/
def partsOf (vals : List (Option MxArray)) : List Serial :=
  vals.map fun o => Serial.of (encode 8 (child o))

theorem partBytes_partsOf (vals : List (Option MxArray)) :
    partBytes (partsOf vals) = childBytes 8 vals := by
  induction vals with
  | nil => rfl
  | cons o vals ih =>
    rw [childBytes_cons, ← ih]
    rfl

theorem length_childBytes (w : Nat) (vals : List (Option MxArray)) :
    (childBytes w vals).length = (vals.map fun o => (encode w (child o)).length + w).sum := by
  induction vals with
  | nil => rfl
  | cons o vals ih =>
    rw [childBytes_cons, List.length_append, sized, List.length_append, length_leBytes, ih,
      List.map_cons, List.sum_cons]
    omega

theorem length_nameBytes (fields : List CStr) :
    (nameBytes fields).length = (fields.map fun f => f.1.length + 1).sum := by
  rw [nameBytes, List.length_flatten, List.map_map]
  congr 1
  exact List.map_congr_left fun f _ => by simp

theorem sum_partsOf (vals : List (Option MxArray)) :
    ((partsOf vals).map fun p => p.rnBytes + sizeofUint64).sum = (childBytes 8 vals).length := by
  rw [length_childBytes, partsOf, List.map_map]
  rfl

theorem putStruct_eq (dims : List Nat) (fields : List CStr) (vals : List (Option MxArray))
    (rhead : Bool) (h : fields.length * dims.prod < 2 ^ 31) :
    putStruct dims fields (partsOf vals) rhead
      = .ok (.of (headBytes rhead ++ encode 8 (.struct dims fields vals))) := by
  have hw : headBytes rhead ++ [idStruct] ++ leBytes sizeofUint64 dims.length
      ++ wordBytes sizeofUint64 dims ++ leBytes sizeofInt fields.length
      ++ (fields.map fun f => f.1 ++ [0]).flatten ++ partBytes (partsOf vals)
      = headBytes rhead ++ encode 8 (.struct dims fields vals) := by
    simp only [partBytes_partsOf, encode, tag, body, dimBytes, nameBytes, sizeofUint64, sizeofInt,
      List.append_assoc, List.nil_append, List.cons_append]
  have hlen : (headBytes rhead ++ encode 8 (.struct dims fields vals)).length
      = 1 + sizeofUint64 + dims.length * sizeofUint64
        + (if rhead then idMatlab.length + 1 else 0) + sizeofInt
        + (fields.map fun f => f.1.length + 1).sum
        + ((partsOf vals).map fun p => p.rnBytes + sizeofUint64).sum := by
    rw [sum_partsOf, ← length_nameBytes, ← length_headBytes]
    simp only [encode, tag, body, dimBytes, List.length_append, List.length_cons, length_leBytes,
      length_wordBytes, sizeofUint64, sizeofInt]
    omega
  unfold putStruct
  simp only [hw]
  rw [if_neg (by omega), if_neg (by rw [hlen]; simp), ← hlen]
  rfl

theorem putCell_eq (dims : List Nat) (vals : List (Option MxArray)) (rhead : Bool) :
    putCell dims (partsOf vals) rhead
      = .ok (.of (headBytes rhead ++ encode 8 (.cell dims vals))) := by
  have hw : headBytes rhead ++ [idCell] ++ leBytes sizeofUint64 dims.length
      ++ wordBytes sizeofUint64 dims ++ partBytes (partsOf vals)
      = headBytes rhead ++ encode 8 (.cell dims vals) := by
    simp only [partBytes_partsOf, encode, tag, body, dimBytes, sizeofUint64, List.append_assoc,
      List.nil_append, List.cons_append]
  have hlen : (headBytes rhead ++ encode 8 (.cell dims vals)).length
      = 1 + (1 + dims.length) * sizeofUint64 + (if rhead then idMatlab.length + 1 else 0)
        + ((partsOf vals).map fun p => p.rnBytes + sizeofUint64).sum := by
    rw [sum_partsOf, ← length_headBytes]
    simp only [encode, tag, body, dimBytes, List.length_append, List.length_cons, length_leBytes,
      length_wordBytes, sizeofUint64]
    omega
  unfold putCell
  simp only [hw]
  rw [if_neg (by rw [hlen]; simp), ← hlen]
  rfl

/-- The build loops leave the encodings of the children, a 0-by-0 double for a missing
one. -/
theorem serializeParts_eq (vals : List (Option MxArray))
    (h : ∀ v, some v ∈ vals → serializeChild v = .ok (.of (encode 8 v))) :
    serializeParts vals = .ok (partsOf vals) := by
  induction vals with
  | nil => rfl
  | cons o vals ih =>
    have ih := ih fun v hv => h v (List.mem_cons_of_mem _ hv)
    cases o with
    | none => rw [serializeParts, serializeFull_eq, ih]; rfl
    | some v => rw [serializeParts, h v (by simp), ih]; rfl

theorem serializeStruct_of_parts {dims : List Nat} {fields : List CStr}
    {vals : List (Option MxArray)} (hn : NodeLoops (.struct dims fields vals))
    (h : ∀ v, some v ∈ vals → serializeChild v = .ok (.of (encode 8 v))) (rhead : Bool) :
    serializeStruct dims fields vals rhead
      = .ok (.of (headBytes rhead ++ encode 8 (.struct dims fields vals))) := by
  rw [serializeStruct, serializeParts_eq vals h, Outcome.ok_bind, if_neg (Nat.not_le.mpr hn.1.2),
    putStruct_eq dims fields vals rhead hn.2]

theorem serializeCell_of_parts {dims : List Nat} {vals : List (Option MxArray)}
    (hn : NodeLoops (.cell dims vals))
    (h : ∀ v, some v ∈ vals → serializeChild v = .ok (.of (encode 8 v))) (rhead : Bool) :
    serializeCell dims vals rhead
      = .ok (.of (headBytes rhead ++ encode 8 (.cell dims vals))) := by
  rw [serializeCell, serializeParts_eq vals h, Outcome.ok_bind, if_neg (Nat.not_le.mpr hn.2),
    putCell_eq dims vals rhead]

/-- **A child is written in the format**, and its reported size is the number of bytes
written. -/
theorem serializeChild_eq (v : MxArray) (hk : v.All NodeKnown) (hl : v.All NodeLoops) :
    serializeChild v = .ok (.of (encode 8 v)) := by
  induction v using MxArray.ind with
  | full a => rw [serializeChild, serializeFull_eq]; rfl
  | sparse a => rw [serializeChild, serializeSparse_eq]; rfl
  | struct dims fields vals ih =>
    have hv : ∀ v, some v ∈ vals → serializeChild v = .ok (.of (encode 8 v)) := fun v hv =>
      ih v hv (allIn_iff.mp hk.2 v hv) (allIn_iff.mp hl.2 v hv)
    exact serializeStruct_of_parts hl.1 hv false
  | cell dims vals ih =>
    have hv : ∀ v, some v ∈ vals → serializeChild v = .ok (.of (encode 8 v)) := fun v hv =>
      ih v hv (allIn_iff.mp hk.2 v hv) (allIn_iff.mp hl.2 v hv)
    exact serializeCell_of_parts hl.1 hv false
  | other c => exact absurd hk id

theorem serializeStruct_eq {dims : List Nat} {fields : List CStr} {vals : List (Option MxArray)}
    (hk : (MxArray.struct dims fields vals).All NodeKnown)
    (hl : (MxArray.struct dims fields vals).All NodeLoops) (rhead : Bool) :
    serializeStruct dims fields vals rhead
      = .ok (.of (headBytes rhead ++ encode 8 (.struct dims fields vals))) :=
  serializeStruct_of_parts hl.1
    (fun v hv => serializeChild_eq v (allIn_iff.mp hk.2 v hv) (allIn_iff.mp hl.2 v hv)) rhead

theorem serializeCell_eq {dims : List Nat} {vals : List (Option MxArray)}
    (hk : (MxArray.cell dims vals).All NodeKnown)
    (hl : (MxArray.cell dims vals).All NodeLoops) (rhead : Bool) :
    serializeCell dims vals rhead
      = .ok (.of (headBytes rhead ++ encode 8 (.cell dims vals))) :=
  serializeCell_of_parts hl.1
    (fun v hv => serializeChild_eq v (allIn_iff.mp hk.2 v hv) (allIn_iff.mp hl.2 v hv)) rhead

end Mym
