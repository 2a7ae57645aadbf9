import Mym.Lib.Cursor
import Mym.EntryPoint

/-!
# What the serializers allocate and write

The serializers once more, down to the block of memory that each allocates.  The size is
computed first, the pointer `p_work` runs through the block, a nested serialization is copied
with the length its serializer reported, and at the end the distance the pointer has covered
is compared with the size.

`serializeChild_eq` connects this to the serializers of the other modules.  `SizesAgree` asks
for the same number three times, allocated, written and reported, and `sizesAgree_iff` states
that a value has it unless one of its containers is too large for an `int` counter.
-/

namespace Mym.Buffered

open MxArray

/-- What a serializer leaves: the block it allocated, how far `p_work` has come in it, and
`rnBytes`. -/
structure Filled where
  mem : Bytes
  used : Nat
  rnBytes : Nat
  deriving DecidableEq

/-- The two writes of the head. -/
def head (rhead : Bool) : List Bytes := if rhead then [idMatlab, [0]] else []

/-! ### Leaves -/

/-- The copy of the imaginary part, if there is one. -/
def putImag (c : Cursor) (im : Option Bytes) (n : Nat) : Result Cursor :=
  match im with
  | some im => do
    let bs ← readBytes im 0 n
    c.put bs.1
  | none => .ok c

def serializeArray (a : FullArray) (rhead : Bool) : Result Filled := do
  let nbytesData := if a.im.isSome then a.elementSize * a.dims.prod * 2
    else a.elementSize * a.dims.prod
  let nb := 1 + sizeofUint64 + a.dims.length * sizeofUint64 + sizeofInt + sizeofInt + nbytesData
    + (if rhead then idMatlab.length + 1 else 0)
  let c ← (Cursor.calloc nb).puts (head rhead ++ [[idArray], leBytes sizeofUint64 a.dims.length,
    wordBytes sizeofUint64 a.dims, leBytes sizeofInt a.classId, leBytes sizeofInt (mxComplexity a.im)])
  let part := if a.im.isSome then nbytesData / 2 else nbytesData
  let re ← readBytes a.re 0 part
  let c ← c.put re.1
  let c ← putImag c a.im part
  if c.pos > nb then .raised .notEnoughAllocated else .ok ⟨c.mem, c.pos, c.pos⟩

def serializeSparse (a : SparseArray) (rhead : Bool) : Result Filled := do
  let nbytesData := (sparseClass a.isLogical).elementSize * a.nzmax
  let nbytesImag := if a.im.isSome then nbytesData else 0
  let nb := 1 + 3 * sizeofUint64 + sizeofInt + sizeofInt + sizeofUint64 * (a.columns + 1)
    + sizeofUint64 * a.nzmax + nbytesData + nbytesImag
    + (if rhead then idMatlab.length + 1 else 0)
  let c ← (Cursor.calloc nb).puts (head rhead ++ [[idSparse], leBytes sizeofUint64 a.rows,
    leBytes sizeofUint64 a.columns, leBytes sizeofUint64 a.nzmax,
    leBytes sizeofInt (sparseClass a.isLogical).id, leBytes sizeofInt (mxComplexity a.im),
    wordBytes sizeofUint64 a.jc, wordBytes sizeofUint64 a.ir])
  let re ← readBytes a.re 0 nbytesData
  let c ← c.put re.1
  let c ← putImag c a.im nbytesImag
  if c.pos > nb then .raised .notEnoughAllocated else .ok ⟨c.mem, c.pos, c.pos⟩

/-! ### Containers -/

/-- The copy loop: each partial serialization behind its length. -/
def copyParts (c : Cursor) : List Filled → Result Cursor
  | [] => .ok c
  | p :: ps => do
    let c ← c.put (leBytes sizeofUint64 p.rnBytes)
    let bs ← readBytes p.mem 0 p.rnBytes
    let c ← c.put bs.1
    copyParts c ps

/-- The sizes that the build loop adds up. -/
def partsSize (parts : List Filled) : Nat := (parts.map fun p => p.rnBytes + sizeofUint64).sum

/-- The check at the end of a container. -/
def finish (c : Cursor) (rnBytes : Nat) : Result Filled :=
  if c.pos ≠ rnBytes then .raised .notEnoughAllocated else .ok ⟨c.mem, c.pos, rnBytes⟩

/-- What `serializeStruct` does once the partial serializations are there. -/
def putStruct (dims : List Nat) (fields : List CStr) (parts : List Filled) (rhead : Bool) :
    Result Filled := do
  let rnBytes := 1 + sizeofUint64 + dims.length * sizeofUint64
    + (if rhead then idMatlab.length + 1 else 0) + sizeofInt
    + (fields.map fun f => f.1.length + 1).sum + partsSize parts
  let c ← (Cursor.calloc rnBytes).puts (head rhead ++ [[idStruct], leBytes sizeofUint64 dims.length,
    wordBytes sizeofUint64 dims, leBytes sizeofInt fields.length]
    ++ fields.flatMap fun f => [f.1, [0]])
  -- the counter of the copy loop is an int, and runs over all fields of all elements
  if 2 ^ 31 ≤ fields.length * dims.prod then .undefined
  else do
    let c ← copyParts c parts
    finish c rnBytes

/-- The same for `serializeCell`. -/
def putCell (dims : List Nat) (parts : List Filled) (rhead : Bool) : Result Filled := do
  let rnBytes := 1 + (1 + dims.length) * sizeofUint64
    + (if rhead then idMatlab.length + 1 else 0) + partsSize parts
  let c ← (Cursor.calloc rnBytes).puts (head rhead ++ [[idCell], leBytes sizeofUint64 dims.length,
    wordBytes sizeofUint64 dims])
  let c ← copyParts c parts
  finish c rnBytes

mutual
/-- The serializer for the class of the value.  The build loops count elements with an `int`. -/
def serialize (rhead : Bool) : MxArray → Result Filled
  | .sparse a => serializeSparse a rhead
  | .full a => serializeArray a rhead
  | .struct dims fields vals => do
    let parts ← serializeParts vals
    if 2 ^ 31 ≤ dims.prod then .undefined else putStruct dims fields parts rhead
  | .cell dims vals => do
    let parts ← serializeParts vals
    if 2 ^ 31 ≤ dims.prod then .undefined else putCell dims parts rhead
  | .other _ => .raised .unsupportedType

/-- The build loops: every child in turn, a 0-by-0 double for a NULL one. -/
def serializeParts : List (Option MxArray) → Result (List Filled)
  | [] => .ok []
  | none :: vals => do
    let p ← serializeArray MxArray.emptyDouble false
    let ps ← serializeParts vals
    .ok (p :: ps)
  | some v :: vals => do
    let p ← serialize false v
    let ps ← serializeParts vals
    .ok (p :: ps)
end

/-! ### Blocks that are filled -/

/-- A block that has been written from its beginning to its end. -/
def Filled.of (bs : Bytes) : Filled := ⟨bs, bs.length, bs.length⟩

theorem flatten_head (rhead : Bool) : (head rhead).flatten = headBytes rhead := by
  cases rhead <;> rfl

theorem finish_filled (bs : Bytes) : finish (Cursor.filled bs 0) bs.length = .ok (.of bs) := by
  rw [finish, Cursor.filled_pos, if_neg (by simp), Cursor.filled_mem_zero]
  rfl

theorem putImag_filled {done : Bytes} {im : Option Bytes} {n : Nat}
    (h : ∀ b ∈ im, b.length = n) :
    putImag (Cursor.filled done (im.getD []).length) im n
      = .ok (Cursor.filled (done ++ im.getD []) 0) := by
  cases im with
  | none =>
    show Outcome.ok (Cursor.filled done 0) = Outcome.ok (Cursor.filled (done ++ []) 0)
    rw [List.append_nil]
  | some b =>
    rw [putImag, readBytes_self (h b rfl), Outcome.ok_bind]
    exact Cursor.put_filled (Nat.add_zero _).symm

/-- A leaf that allocates what it writes fills its block. -/
theorem leaf_filled {writes : List Bytes} {re : Bytes} {im : Option Bytes} {n m nb : Nat}
    {bs : Bytes} (hre : re.length = n) (him : ∀ b ∈ im, b.length = m)
    (hbs : writes.flatten ++ re ++ im.getD [] = bs) (hnb : nb = bs.length) :
    ((Cursor.calloc nb).puts writes >>= fun c => readBytes re 0 n >>= fun r =>
      c.put r.1 >>= fun c => putImag c im m >>= fun c =>
      if c.pos > nb then .raised .notEnoughAllocated else .ok ⟨c.mem, c.pos, c.pos⟩)
      = (.ok (.of bs) : Result Filled) := by
  have hroom : nb = writes.flatten.length + (re.length + (im.getD []).length) := by
    rw [hnb, ← hbs, List.length_append, List.length_append, Nat.add_assoc]
  rw [Cursor.calloc, Cursor.puts_filled hroom, Outcome.ok_bind, List.nil_append,
    readBytes_self hre, Outcome.ok_bind, Cursor.put_filled rfl, Outcome.ok_bind,
    putImag_filled him, Outcome.ok_bind, hbs, Cursor.filled_pos, Cursor.filled_mem_zero, hnb,
    if_neg (Nat.lt_irrefl _)]
  rfl

theorem serializeArray_eq (a : FullArray) (rhead : Bool) :
    serializeArray a rhead = .ok (.of (headBytes rhead ++ encode 8 (.full a))) := by
  have hpart : (if a.im.isSome then
      (if a.im.isSome then a.elementSize * a.dims.prod * 2 else a.elementSize * a.dims.prod) / 2
      else (if a.im.isSome then a.elementSize * a.dims.prod * 2 else a.elementSize * a.dims.prod))
      = a.elementSize * a.dims.prod := by
    split
    · omega
    · rfl
  rw [serializeArray]
  dsimp only
  rw [hpart]
  refine leaf_filled a.re_length (fun b hb => (a.im_length b hb).trans a.re_length) ?_ ?_
  · rw [List.flatten_append, flatten_head]
    simp only [encode, tag, body, fullBody, dimBytes, sizeofUint64, sizeofInt, List.flatten_cons,
      List.flatten_nil, List.append_nil, List.append_assoc, List.cons_append, List.nil_append]
  · rw [List.length_append, length_headBytes]
    simp only [encode, body, fullBody, dimBytes, List.length_cons, List.length_append,
      length_leBytes, length_wordBytes, length_imData, a.re_length, sizeofUint64, sizeofInt]
    split <;> split <;> omega

theorem serializeSparse_eq (a : SparseArray) (rhead : Bool) :
    serializeSparse a rhead = .ok (.of (headBytes rhead ++ encode 8 (.sparse a))) := by
  have himag : ∀ b ∈ a.im,
      b.length = if a.im.isSome then (sparseClass a.isLogical).elementSize * a.nzmax else 0 := by
    intro b hb
    rw [Option.mem_def.mp hb, Option.isSome_some, if_pos rfl]
    exact (a.im_length b hb).trans a.re_length
  rw [serializeSparse]
  refine leaf_filled a.re_length himag ?_ ?_
  · rw [List.flatten_append, flatten_head]
    simp only [encode, tag, body, sparseBody, sizeofUint64, sizeofInt, List.flatten_cons,
      List.flatten_nil, List.append_nil, List.append_assoc, List.cons_append, List.nil_append]
  · rw [List.length_append, length_headBytes]
    simp only [encode, body, sparseBody, List.length_cons, List.length_append, length_leBytes,
      length_wordBytes, length_sparseImData, a.jc_length, a.ir_length, a.re_length, sizeofUint64,
      sizeofInt]
    split <;> split <;> omega

/-- The partial serializations of a list of children. -/
def filledParts (vals : List (Option MxArray)) : List Filled :=
  vals.map fun o => Filled.of (encode 8 (child o))

theorem partsSize_filledParts (vals : List (Option MxArray)) :
    partsSize (filledParts vals) = (childBytes 8 vals).length := by
  rw [length_childBytes, partsSize, filledParts, List.map_map]
  rfl

/-- The copy loop writes each child behind its length. -/
theorem copyParts_filled (vals : List (Option MxArray)) (done : Bytes) :
    copyParts (Cursor.filled done (childBytes 8 vals).length) (filledParts vals)
      = .ok (Cursor.filled (done ++ childBytes 8 vals) 0) := by
  induction vals generalizing done with
  | nil =>
    show Outcome.ok (Cursor.filled done 0) = Outcome.ok (Cursor.filled (done ++ []) 0)
    rw [List.append_nil]
  | cons o vals ih =>
    have hroom : (childBytes 8 (o :: vals)).length
        = (leBytes sizeofUint64 (encode 8 (child o)).length).length
          + ((encode 8 (child o)).length + (childBytes 8 vals).length) := by
      rw [childBytes_cons, sized, List.length_append, List.length_append, Nat.add_assoc]
      rfl
    show copyParts _ (Filled.of (encode 8 (child o)) :: filledParts vals) = _
    rw [copyParts]
    dsimp only [Filled.of]
    rw [Cursor.put_filled hroom, Outcome.ok_bind, readBytes_self rfl, Outcome.ok_bind,
      Cursor.put_filled rfl, Outcome.ok_bind, ih, childBytes_cons, sized]
    simp only [List.append_assoc, sizeofUint64]

theorem flatten_names (fields : List CStr) :
    (fields.flatMap fun f => [f.1, [0]]).flatten = nameBytes fields := by
  induction fields with
  | nil => rfl
  | cons f fields ih =>
    rw [List.flatMap_cons, List.flatten_append, ih]
    simp [nameBytes]

theorem putStruct_eq {dims : List Nat} {fields : List CStr} {vals : List (Option MxArray)}
    {rhead : Bool} :
    putStruct dims fields (filledParts vals) rhead
      = if 2 ^ 31 ≤ fields.length * dims.prod then .undefined
        else .ok (.of (headBytes rhead ++ encode 8 (.struct dims fields vals))) := by
  have hwrites : (head rhead ++ [[idStruct], leBytes sizeofUint64 dims.length,
      wordBytes sizeofUint64 dims, leBytes sizeofInt fields.length]
      ++ fields.flatMap fun f => [f.1, [0]]).flatten ++ childBytes 8 vals
      = headBytes rhead ++ encode 8 (.struct dims fields vals) := by
    rw [List.flatten_append, List.flatten_append, flatten_head, flatten_names]
    simp only [encode, tag, body, dimBytes, sizeofUint64, sizeofInt, List.flatten_cons,
      List.flatten_nil, List.append_nil, List.append_assoc, List.cons_append, List.nil_append]
  have hnb : 1 + sizeofUint64 + dims.length * sizeofUint64
      + (if rhead then idMatlab.length + 1 else 0) + sizeofInt
      + (fields.map fun f => f.1.length + 1).sum + partsSize (filledParts vals)
      = (headBytes rhead ++ encode 8 (.struct dims fields vals)).length := by
    rw [partsSize_filledParts, ← length_nameBytes, List.length_append, length_headBytes]
    simp only [encode, body, dimBytes, List.length_cons, List.length_append, length_leBytes,
      length_wordBytes, sizeofUint64, sizeofInt]
    omega
  have hroom := congrArg List.length hwrites
  rw [List.length_append] at hroom
  rw [putStruct]
  rw [hnb, Cursor.calloc, Cursor.puts_filled hroom.symm, Outcome.ok_bind, List.nil_append,
    copyParts_filled, Outcome.ok_bind, hwrites, finish_filled]

theorem putCell_eq {dims : List Nat} {vals : List (Option MxArray)} {rhead : Bool} :
    putCell dims (filledParts vals) rhead
      = .ok (.of (headBytes rhead ++ encode 8 (.cell dims vals))) := by
  have hwrites : (head rhead ++ [[idCell], leBytes sizeofUint64 dims.length,
      wordBytes sizeofUint64 dims]).flatten ++ childBytes 8 vals
      = headBytes rhead ++ encode 8 (.cell dims vals) := by
    rw [List.flatten_append, flatten_head]
    simp only [encode, tag, body, dimBytes, sizeofUint64, List.flatten_cons, List.flatten_nil,
      List.append_nil, List.append_assoc, List.cons_append, List.nil_append]
  have hnb : 1 + (1 + dims.length) * sizeofUint64
      + (if rhead then idMatlab.length + 1 else 0) + partsSize (filledParts vals)
      = (headBytes rhead ++ encode 8 (.cell dims vals)).length := by
    rw [partsSize_filledParts, List.length_append, length_headBytes]
    simp only [encode, body, dimBytes, List.length_cons, List.length_append, length_leBytes,
      length_wordBytes, sizeofUint64]
    omega
  have hroom := congrArg List.length hwrites
  rw [List.length_append] at hroom
  rw [putCell]
  rw [hnb, Cursor.calloc, Cursor.puts_filled hroom.symm, Outcome.ok_bind, List.nil_append,
    copyParts_filled, Outcome.ok_bind, hwrites, finish_filled]

/-! ### Values -/

/-- The counters of the serializers do not run over at a node. -/
def NodeCounters : MxArray → Prop
  | .struct dims fields _ => dims.prod < 2 ^ 31 ∧ fields.length * dims.prod < 2 ^ 31
  | .cell dims _ => dims.prod < 2 ^ 31
  | _ => True

instance : DecidablePred NodeCounters
  | .struct _ _ _ => inferInstanceAs (Decidable (_ ∧ _))
  | .cell _ _ => inferInstanceAs (Decidable (_ < _))
  | .full _ | .sparse _ | .other _ => isTrue trivial

theorem serializeParts_refines {vals : List (Option MxArray)}
    (h : ∀ v, some v ∈ vals →
      serialize false v = serializeChild v >>= fun p => .ok (Filled.of p.bytes)) :
    serializeParts vals
      = Mym.serializeParts vals >>= fun ps => .ok (ps.map fun p => Filled.of p.bytes) := by
  induction vals with
  | nil => rfl
  | cons o vals ih =>
    have ih := ih fun v hv => h v (List.mem_cons_of_mem _ hv)
    cases o with
    | none =>
      rw [serializeParts, Mym.serializeParts, serializeArray_eq, serializeFull_eq, ih]
      simp only [Outcome.ok_bind, Outcome.bind_assoc]
      rfl
    | some v =>
      rw [serializeParts, Mym.serializeParts, h v (by simp), ih]
      simp only [Outcome.ok_bind, Outcome.bind_assoc]
      rfl

theorem map_partsOf (vals : List (Option MxArray)) :
    (partsOf vals).map (fun p => Filled.of p.bytes) = filledParts vals := by
  rw [partsOf, filledParts, List.map_map]
  rfl

/-- **The serializers that write into memory leave what the others return**, behind the head. -/
theorem serialize_refines (v : MxArray) (rhead : Bool) :
    serialize rhead v
      = serializeChild v >>= fun p => .ok (Filled.of (headBytes rhead ++ p.bytes)) := by
  induction v using MxArray.ind generalizing rhead with
  | full a =>
    rw [serialize, serializeArray_eq, serializeChild, serializeFull_eq]
    rfl
  | sparse a =>
    rw [serialize, serializeSparse_eq, serializeChild, Mym.serializeSparse_eq]
    rfl
  | struct dims fields vals ih =>
    rw [serialize, serializeParts_refines fun v hv => ih v hv false, serializeChild,
      Outcome.bind_assoc, Outcome.bind_assoc]
    apply Outcome.bind_congr
    intro ps hps
    obtain ⟨-, rfl⟩ := serializeParts_ok (fun v _ p => serializeChild_ok v) hps
    rw [Outcome.ok_bind, map_partsOf, putStruct_eq]
    by_cases hprod : 2 ^ 31 ≤ dims.prod
    · rw [if_pos hprod, if_pos hprod]
      rfl
    rw [if_neg hprod, if_neg hprod]
    by_cases hcount : 2 ^ 31 ≤ fields.length * dims.prod
    · rw [if_pos hcount, Mym.putStruct, if_pos hcount]
      rfl
    · rw [if_neg hcount, Mym.putStruct_eq dims fields vals false (Nat.not_le.mp hcount)]
      rfl
  | cell dims vals ih =>
    rw [serialize, serializeParts_refines fun v hv => ih v hv false, serializeChild,
      Outcome.bind_assoc, Outcome.bind_assoc]
    apply Outcome.bind_congr
    intro ps hps
    obtain ⟨-, rfl⟩ := serializeParts_ok (fun v _ p => serializeChild_ok v) hps
    rw [Outcome.ok_bind, map_partsOf, putCell_eq, Mym.putCell_eq]
    split
    · rfl
    · rfl
  | other c => rfl

theorem serializeParts_eq_ite {vals : List (Option MxArray)}
    (h : ∀ v, some v ∈ vals → serializeChild v
      = if v.All NodeCounters then .ok (.of (encode 8 v)) else .undefined) :
    Mym.serializeParts vals
      = if AllIn NodeCounters vals then .ok (partsOf vals) else .undefined := by
  induction vals with
  | nil => rfl
  | cons o vals ih =>
    have ih := ih fun v hv => h v (List.mem_cons_of_mem _ hv)
    cases o with
    | none =>
      rw [Mym.serializeParts, serializeFull_eq, Outcome.ok_bind, ih]
      by_cases hvals : AllIn NodeCounters vals
      · rw [if_pos hvals]
        exact (if_pos hvals).symm
      · rw [if_neg hvals]
        exact (if_neg hvals).symm
    | some v =>
      rw [Mym.serializeParts, h v (by simp), ih]
      by_cases hv : v.All NodeCounters
      · rw [if_pos hv, Outcome.ok_bind]
        by_cases hvals : AllIn NodeCounters vals
        · rw [if_pos hvals]
          exact (if_pos ⟨hv, hvals⟩).symm
        · rw [if_neg hvals]
          exact (if_neg fun h => hvals (And.right h)).symm
      · rw [if_neg hv]
        exact (if_neg fun h => hv (And.left h)).symm

/-- A value of known classes is serialized, unless a counter runs over. -/
theorem serializeChild_eq_ite (v : MxArray) (hk : v.All NodeKnown) :
    serializeChild v = if v.All NodeCounters then .ok (.of (encode 8 v)) else .undefined := by
  induction v using MxArray.ind with
  | full a =>
    rw [serializeChild, serializeFull_eq]
    rfl
  | sparse a =>
    rw [serializeChild, Mym.serializeSparse_eq]
    rfl
  | struct dims fields vals ih =>
    rw [serializeChild, serializeParts_eq_ite fun v hv => ih v hv (allIn_iff.mp hk.2 v hv)]
    by_cases hvals : AllIn NodeCounters vals
    · rw [if_pos hvals, Outcome.ok_bind]
      by_cases hprod : dims.prod < 2 ^ 31
      · rw [if_neg (Nat.not_le.mpr hprod)]
        by_cases hcount : fields.length * dims.prod < 2 ^ 31
        · rw [Mym.putStruct_eq dims fields vals false hcount, if_pos ⟨⟨hprod, hcount⟩, hvals⟩]
          rfl
        · rw [Mym.putStruct, if_pos (Nat.not_lt.mp hcount), if_neg fun h => hcount h.1.2]
      · rw [if_pos (Nat.not_lt.mp hprod), if_neg fun h => hprod h.1.1]
    · rw [if_neg hvals, if_neg fun h => hvals h.2]
      rfl
  | cell dims vals ih =>
    rw [serializeChild, serializeParts_eq_ite fun v hv => ih v hv (allIn_iff.mp hk.2 v hv)]
    by_cases hvals : AllIn NodeCounters vals
    · rw [if_pos hvals, Outcome.ok_bind]
      by_cases hprod : dims.prod < 2 ^ 31
      · rw [if_neg (Nat.not_le.mpr hprod), Mym.putCell_eq, if_pos ⟨hprod, hvals⟩]
        rfl
      · rw [if_pos (Nat.not_lt.mp hprod), if_neg fun h => hprod h.1]
    · rw [if_neg hvals, if_neg fun h => hvals h.2]
      rfl
  | other c => exact absurd hk id

/-! ### Sizes -/

/-- What is wanted of a value, with and without the head: the serializer for its class returns,
and has written and reports as many bytes as it allocated, in the format, where every
nested length is that of the bytes behind it. -/
def SizesAgree (v : MxArray) : Prop :=
  ∀ rhead, ∃ p, serialize rhead v = .ok p ∧ p.used = p.mem.length ∧ p.rnBytes = p.mem.length ∧
    p.mem = headBytes rhead ++ encode 8 v

theorem serialize_eq_ite (v : MxArray) (hk : v.All NodeKnown) (rhead : Bool) :
    serialize rhead v = if v.All NodeCounters then .ok (.of (headBytes rhead ++ encode 8 v))
      else .undefined := by
  rw [serialize_refines, serializeChild_eq_ite v hk]
  split
  · rfl
  · rfl

/-- **Which values are written in exactly the memory that is allocated for them.** -/
theorem sizesAgree_iff (v : MxTree) : SizesAgree v.val ↔ v.val.All NodeCounters := by
  refine ⟨?_, ?_⟩
  · intro h
    by_contra hno
    obtain ⟨p, hp, -⟩ := h false
    rw [serialize_eq_ite v.val v.known, if_neg hno] at hp
    cases hp
  · intro h rhead
    refine ⟨.of (headBytes rhead ++ encode 8 v.val), ?_, rfl, rfl, rfl⟩
    rw [serialize_eq_ite v.val v.known, if_pos h]

/-- A struct array of `2 ^ 30 + 1` elements with two fields, none of them set. -/
def wideStruct : MxArray :=
  .struct [2 ^ 30 + 1, 1] [⟨[120], by decide⟩, ⟨[121], by decide⟩]
    (List.replicate ((2 ^ 30 + 1) * 2) none)

/-- A struct array with no field set is a single node. -/
theorem all_unset {p : MxArray → Prop} {dims : List Nat} {fields : List CStr} {n : Nat} :
    (MxArray.struct dims fields (List.replicate n none)).All p
      ↔ p (.struct dims fields (List.replicate n none)) := by
  rw [MxArray.All]
  refine and_iff_left (allIn_iff.mpr fun v hv => ?_)
  cases List.eq_of_mem_replicate hv

/-- **The copy loop cannot count the fields of a large struct array.** -/
theorem wideStruct_overflow :
    wideStruct.All Shaped ∧ wideStruct.All NodeKnown ∧
      (∀ rhead, serialize rhead wideStruct = .undefined) ∧ ¬SizesAgree wideStruct := by
  have hshaped : wideStruct.All Shaped := by
    rw [wideStruct, all_unset, Shaped, List.length_replicate]
    decide
  have hknown : wideStruct.All NodeKnown := by
    rw [wideStruct, all_unset]
    trivial
  have hcount : ¬wideStruct.All NodeCounters := by
    rw [wideStruct, all_unset, NodeCounters]
    decide
  have hrun : ∀ rhead, serialize rhead wideStruct = .undefined := by
    intro rhead
    rw [serialize_eq_ite wideStruct hknown, if_neg hcount]
  refine ⟨hshaped, hknown, hrun, fun h => ?_⟩
  obtain ⟨p, hp, -⟩ := h false
  rw [hrun] at hp
  cases hp

end Mym.Buffered
