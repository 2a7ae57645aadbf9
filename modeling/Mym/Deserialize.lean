import Mym.Serialize

/-!
# The deserializers

`deserializeArray`, `deserializeSparse`, `deserializeStruct`, `deserializeCell` and
`deserialize` of `mym.cpp`, over a block of memory `mem` in which a pointer is an
offset.  None of them looks at its length argument before it reads, so the
length is left out of the nested decoders; a read past the end of `mem` is the
outcome `outside`.

`use32` is what `use32bitdims` returns: dimension counts, dimensions, sparse
sizes, indices and nested lengths are then four bytes wide instead of eight.
The number of fields, the class and the complexity are four bytes in both modes.

A pointer moves past what it has just read, which cannot carry it beyond the
memory.  The one exception is the length in front of a child: it is added to the
pointer unseen, modulo `2 ^ 64`.

The MATLAB API is `MxApi`: for what it has memory, which arrays it creates, and how
large the elements of a numeric one are.  What would not fit the address space is
refused.  An array has the dimensions that `mxDims` makes of those it is created with,
and a child set beyond its elements is undefined behaviour.

The decoders call one another without a bound on the depth, so
`deserializeNode` counts its depth down; `deserialize` starts it with one more than
the number of bytes there are to read.
-/

namespace Mym

/-! ### The MATLAB API -/

structure MxApi where
  /-- `mxCalloc`; false when there is no memory, which ends the call with an error. -/
  mxCalloc : (n size : Nat) → Bool
  /-- `mxCreateNumericArray`: the element size of the new array, or `none` when it raises. -/
  createNumeric : List Nat → (classId complexity : Nat) → Option Nat
  /-- `mxCreateSparse` and `mxCreateSparseLogicalMatrix`; false when they raise. -/
  createSparse : (isLogical : Bool) → (rows columns nzmax complexity : Nat) → Bool
  createStruct : List Nat → List CStr → Bool
  createCell : List Nat → Bool
  mxCalloc_fits : ∀ {n size}, mxCalloc n size = true → n * size < 2 ^ 63
  numeric_fits : ∀ {dims c x s}, createNumeric dims c x = some s → s * (mxDims dims).prod < 2 ^ 63
  sparse_fits : ∀ {l rows columns nzmax x}, createSparse l rows columns nzmax x = true →
    columns < 2 ^ 60 ∧ nzmax < 2 ^ 60

/-- The documented behaviour: there is memory for what fits the address space, and an array of
a known class is created, with the given class and shape. -/
structure MxApi.Creates (api : MxApi) : Prop where
  mxCalloc : ∀ {n size}, n * size < 2 ^ 63 → api.mxCalloc n size = true
  numeric : ∀ {dims c x}, c.elementSize * (mxDims dims).prod < 2 ^ 63 →
    api.createNumeric dims (MxClass.id c) x = some c.elementSize
  sparse : ∀ {l rows columns nzmax x}, columns < 2 ^ 60 → nzmax < 2 ^ 60 →
    api.createSparse l rows columns nzmax x = true
  struct : ∀ dims fields, api.createStruct dims fields = true
  cell : ∀ dims, api.createCell dims = true

/-- An API that creates what is documented and nothing else. -/
def documentedApi : MxApi where
  mxCalloc n size := decide (n * size < 2 ^ 63)
  createNumeric dims c _ :=
    (MxClass.ofId c).bind fun k =>
      if k.elementSize * (mxDims dims).prod < 2 ^ 63 then some k.elementSize else none
  createSparse _ _ columns nzmax _ := decide (columns < 2 ^ 60 ∧ nzmax < 2 ^ 60)
  createStruct _ _ := true
  createCell _ := true
  mxCalloc_fits := of_decide_eq_true
  numeric_fits := by
    intro dims c x s h
    obtain ⟨k, -, hk⟩ := Option.bind_eq_some_iff.mp h
    split at hk
    · next hlt => cases hk; exact hlt
    · cases hk
  sparse_fits := by simp

theorem documentedApi_creates : documentedApi.Creates where
  mxCalloc := decide_eq_true
  numeric := by
    intro dims c x h
    have hc : MxClass.ofId c.id = some c := by cases c <;> rfl
    simp only [documentedApi, hc, Option.bind_some]
    exact if_pos h
  sparse := fun h1 h2 => decide_eq_true ⟨h1, h2⟩
  struct := fun _ _ => rfl
  cell := fun _ => rfl

/-! ### Sizes -/

section

variable (api : MxApi) (use32 : Bool) (mem : Bytes)

/-- The width of the numbers `READ_UINT` reads. -/
def uintWidth : Nat := if use32 then 4 else 8

/-- `READ_UINT`: the number and the pointer behind it. -/
def readUint (pos : Nat) : Result (Nat × Nat) := do
  let n ← readWord mem pos (uintWidth use32)
  .ok (n, pos + uintWidth use32)

/-- `READ_UINTS`. -/
def readUints (pos n : Nat) : Result ({ns : List Nat // ns.length = n} × Nat) := do
  let ns ← readWords mem pos (uintWidth use32) n
  .ok (ns, pos + uintWidth use32 * n)

/-- `sizeof` of `mwSize` and of a pointer. -/
def sizeofWord : Nat := 8

/-- The dimensions in front of every array but a sparse one. -/
def readDims (pos : Nat) : Result (List Nat × Nat) := do
  let (ndims, p) ← readUint use32 mem pos
  if api.mxCalloc ndims sizeofWord then do
    let (pdims, p) ← readUints use32 mem p ndims
    .ok (pdims.1, p)
  else .raised .matlab

/-- The number of elements, multiplied up in a `size_t` by a loop with an `int` counter. -/
def countElements (pdims : List Nat) : Result Nat :=
  if pdims.length < 2 ^ 31 then .ok (pdims.foldl (fun nelts d => nelts * d % 2 ^ 64) 1)
  else .undefined

/-- A four-byte `int`. -/
def toInt32 (n : Nat) : Int := if n < 2 ^ 31 then n else (n : Int) - 2 ^ 32

theorem toInt32_eq_iff (n : Nat) : toInt32 (n % 2 ^ 32) = n ↔ n < 2 ^ 31 := by
  unfold toInt32
  split
  · omega
  · omega

/-! ### Leaves -/

def deserializeArray (pos : Nat) : Result MxArray := do
  let (pdims, p) ← readDims api use32 mem pos
  let classId ← readWord mem p sizeofInt
  let complexity ← readWord mem (p + sizeofInt) sizeofInt
  let p := p + 2 * sizeofInt
  match api.createNumeric pdims classId complexity with
  | none => .raised .matlab
  | some elementSize => do
    let size := elementSize * (mxDims pdims).prod
    let re ← readBytes mem p size
    if complexity = 1 then
      let im ← readBytes mem (p + size) size
      .ok (.full { classId, elementSize, dims := mxDims pdims, re := re.1, im := some im.1,
                   re_length := re.2, im_length := by simp [re.2, im.2] })
    else
      .ok (.full { classId, elementSize, dims := mxDims pdims, re := re.1, im := none,
                   re_length := re.2, im_length := by simp })

/-- The second half of `deserializeSparse`, with the matrix created: its indices and its
data. -/
def sparseData (isLogical : Bool) (rows columns nzmax complexity p : Nat) : Result MxArray := do
  let (jc, p) ← readUints use32 mem p (columns + 1)
  let (ir, p) ← readUints use32 mem p nzmax
  let re ← readBytes mem p ((sparseClass isLogical).elementSize * nzmax)
  let p := p + (sparseClass isLogical).elementSize * nzmax
  if complexity = 1 then
    if h : isLogical = true then
      -- a logical matrix has no imaginary part: mxGetImagData returns NULL
      if (sparseClass isLogical).elementSize * nzmax = 0 then
        .ok (.sparse { isLogical, rows, columns, nzmax, jc := jc.1, ir := ir.1, re := re.1,
                       im := none, jc_length := jc.2, ir_length := ir.2, re_length := re.2,
                       im_length := by simp, im_logical := fun _ => rfl })
      else .undefined
    else
      let im ← readBytes mem p ((sparseClass isLogical).elementSize * nzmax)
      .ok (.sparse { isLogical, rows, columns, nzmax, jc := jc.1, ir := ir.1, re := re.1,
                     im := some im.1, jc_length := jc.2, ir_length := ir.2, re_length := re.2,
                     im_length := by simp [re.2, im.2], im_logical := fun hl => absurd hl h })
  else
    .ok (.sparse { isLogical, rows, columns, nzmax, jc := jc.1, ir := ir.1, re := re.1,
                   im := none, jc_length := jc.2, ir_length := ir.2, re_length := re.2,
                   im_length := by simp, im_logical := fun _ => rfl })

def deserializeSparse (pos : Nat) : Result MxArray := do
  let (rows, p) ← readUint use32 mem pos
  let (columns, p) ← readUint use32 mem p
  let (nzmax, p) ← readUint use32 mem p
  let classId ← readWord mem p sizeofInt
  let complexity ← readWord mem (p + sizeofInt) sizeofInt
  let p := p + 2 * sizeofInt
  let isLogical := classId == MxClass.logical.id
  if api.createSparse isLogical rows columns nzmax complexity then
    sparseData use32 mem isLogical rows columns nzmax complexity p
  else .raised .matlab

/-! ### Containers -/

/-- The field names: `nfields` strings, one behind the other. -/
def readNames : (nfields : Nat) → Nat → Result (List CStr × Nat)
  | 0, p => .ok ([], p)
  | nfields + 1, p => do
    let s ← readCStr mem p
    let (ss, p) ← readNames nfields (p + s.1.length + 1)
    .ok (s :: ss, p)

variable (nested : UInt8 → Nat → Result MxArray)

/-- One pass of an element loop: the length of the child, the child, and the jump over
it.  The state is the pointer and the children set so far, and there is room for `room` of
them in the array. -/
def elementStep (room : Nat) (s : Nat × List (Option MxArray)) :
    Result (Nat × List (Option MxArray)) := do
  let (nbytes, p) ← readUint use32 mem s.1
  let tag ← readByte mem p
  let pf ← nested tag (p + 1)
  if s.2.length < room then .ok ((p + nbytes) % 2 ^ 64, s.2 ++ [some pf])
  else .undefined

def deserializeStruct (pos : Nat) : Result MxArray := do
  let (pdims, p) ← readDims api use32 mem pos
  let nelts ← countElements pdims
  let n ← readWord mem p sizeofInt
  let p := p + sizeofInt
  -- a negative number of entries is nearly 2 ^ 64 of them
  if api.mxCalloc (toInt32 n % 2 ^ 64).toNat sizeofWord then
    let nfields := (toInt32 n).toNat
    let (fieldNames, p) ← readNames mem nfields p
    if api.createStruct pdims fieldNames then
      let room := (mxDims pdims).prod * nfields
      let s ← Outcome.forInt nelts (Outcome.forInt nfields (elementStep use32 mem nested room)) (p, [])
      .ok (.struct (mxDims pdims) fieldNames s.2)
    else .raised .matlab
  else .raised .matlab

def deserializeCell (pos : Nat) : Result MxArray := do
  let (pdims, p) ← readDims api use32 mem pos
  let nelts ← countElements pdims
  if api.createCell pdims then
    let s ← Outcome.forInt nelts (elementStep use32 mem nested (mxDims pdims).prod) (p, [])
    .ok (.cell (mxDims pdims) s.2)
  else .raised .matlab

end

/-! ### The recursion -/

/-- The decoder for the type byte `tag`, started at `pos`, at most `fuel` deep. -/
def deserializeNode (api : MxApi) (use32 : Bool) (mem : Bytes) :
    (fuel : Nat) → (tag : UInt8) → (pos : Nat) → Result MxArray
  | 0, _, _ => .diverged
  | fuel + 1, tag, pos =>
    if tag = idArray then deserializeArray api use32 mem pos
    else if tag = idSparse then deserializeSparse api use32 mem pos
    else if tag = idStruct then
      deserializeStruct api use32 mem (deserializeNode api use32 mem fuel) pos
    else if tag = idCell then
      deserializeCell api use32 mem (deserializeNode api use32 mem fuel) pos
    else .raised .unknownType

/-! ### Entry point -/

/-- The part of zlib that is used.  `compress` may fail.  `uncompress` sees the memory it
may read and the room it may fill, and fails or returns at most that much. -/
structure Zlib where
  compress : Bytes → Option Bytes
  uncompress : Bytes → (capacity : Nat) → Option Bytes
  uncompress_le : ∀ {src cap out}, uncompress src cap = some out → out.length ≤ cap

/-- The documented behaviour: what has been compressed comes back if there is room for it,
whatever follows the stream. -/
def Zlib.Inverts (zlib : Zlib) : Prop :=
  ∀ {p c}, zlib.compress p = some c → p.length < 2 ^ 64 → ∀ rest cap,
    zlib.uncompress (c ++ rest) cap = if p.length ≤ cap then some p else none

/-- A zlib that compresses runs of zeros, and stores everything else behind its length. -/
def runZlib : Zlib where
  compress p :=
    if p = List.replicate p.length 0 then some (0 :: leBytes 8 p.length)
    else some (1 :: leBytes 8 p.length ++ p)
  uncompress src cap :=
    if cap < leNat (src.tail.take 8) then none
    else if src.head? = some 0 then some (List.replicate (leNat (src.tail.take 8)) 0)
    else some ((src.tail.drop 8).take (leNat (src.tail.take 8)))
  uncompress_le := by
    intro src cap out h
    split at h
    · cases h
    · next hle =>
      split at h
      · cases h
        rw [List.length_replicate]
        exact Nat.not_lt.mp hle
      · cases h
        exact Nat.le_trans (List.length_take_le _ _) (Nat.not_lt.mp hle)

theorem runZlib_inverts : runZlib.Inverts := by
  intro p c hc hp rest cap
  have hlen : ∀ t, leNat ((leBytes 8 p.length ++ t).take 8) = p.length := by
    intro t
    rw [List.take_left' (length_leBytes 8 _), leNat_leBytes hp]
  simp only [runZlib] at hc ⊢
  by_cases hz : p = List.replicate p.length 0
  · rw [if_pos hz] at hc
    cases hc
    simp only [List.cons_append, List.tail_cons, hlen, List.head?_cons, if_true]
    by_cases hle : p.length ≤ cap
    · rw [if_neg (Nat.not_lt.mpr hle), if_pos hle, ← hz]
    · rw [if_pos (Nat.not_le.mp hle), if_neg hle]
  · rw [if_neg hz] at hc
    cases hc
    simp only [List.cons_append, List.tail_cons, List.append_assoc, hlen, List.head?_cons]
    by_cases hle : p.length ≤ cap
    · rw [if_neg (Nat.not_lt.mpr hle), if_pos hle, if_neg (by decide),
        List.drop_left' (length_leBytes 8 _), List.take_left]
    · rw [if_pos (Nat.not_le.mp hle), if_neg hle]

/-- What a fetched object is turned into: a MATLAB value, or a dump of its bytes as a
`uint8` column. -/
inductive Fetched where
  | value (v : MxArray)
  | dump (bytes : Bytes)

/-- `ZL123` -/
def zlibId : Bytes := [90, 76, 49, 50, 51]
/-- `dj0` -/
def dj0Id : Bytes := [100, 106, 48]

/-- `tolower` on bytes. -/
def toLower (b : UInt8) : UInt8 := if 65 ≤ b ∧ b ≤ 90 then b + 32 else b

def strcmpEq (mem : Bytes) (pos : Nat) (s : Bytes) : Result Bool := sameAt id mem (s ++ [0]) pos

def strcasecmpEq (mem : Bytes) (pos : Nat) (s : Bytes) : Result Bool :=
  sameAt toLower mem (s ++ [0]) pos

/-- Offset and length of the source that is handed to `uncompress`: everything behind the
stored length, but as long as the whole object. -/
def uncompressWindow (use32 : Bool) (rlength : Nat) : Nat × Nat :=
  (zlibId.length + 1 + uintWidth use32, rlength)

/-- The buffer the rest of `deserialize` works on and the length that goes with it: the
inflated payload, or the object itself when it carries no `ZL123` or does not inflate. -/
def inflate (api : MxApi) (zlib : Zlib) (use32 : Bool) (mem : Bytes) (rlength : Nat) :
    Result (Bytes × Nat) := do
  if ← strcmpEq mem 0 zlibId then
    let (len, _) ← readUint use32 mem (zlibId.length + 1)
    -- mxCalloc stands in front of the try
    if api.mxCalloc len 1 then
      let (start, size) := uncompressWindow use32 rlength
      match zlib.uncompress ((mem.drop start).take size) (len % 2 ^ 32) with
      | some out => .ok (out ++ List.replicate (len - out.length) 0, len)
      | none => .ok (mem, rlength)
    else .raised .matlab
  else .ok (mem, rlength)

/-- The fallback: `length` bytes from `pos`.  There is memory for them, as a buffer of that length
exists. -/
def memoryDump (mem : Bytes) (pos length : Nat) : Result Fetched := do
  let bs ← readBytes mem pos length
  .ok (.dump bs.1)

def isTag (b : UInt8) : Bool := b == idArray || b == idSparse || b == idStruct || b == idCell

/-- The `catch` around the nested decoders: after an error the object itself is dumped, with
the length of the buffer that was decoded. -/
def catchNested (mem : Bytes) (length : Nat) : Result MxArray → Result Fetched
  | .ok v => .ok (.value v)
  | .raised _ => memoryDump mem 0 length
  | .outside => .outside
  | .undefined => .undefined
  | .diverged => .diverged

/-- What `deserialize` does with the buffer that `inflate` left. -/
def deserializeBuffer (api : MxApi) (use32 : Bool) (mem buf : Bytes) (length : Nat) :
    Result Fetched := do
  if ← strcasecmpEq buf 0 dj0Id then .raised .dj0
  else if ← strcmpEq buf 0 idMatlab then
    let start := idMatlab.length + 1
    let tag ← readByte buf start
    if isTag tag then
      catchNested mem length (deserializeNode api use32 buf (buf.length + 1) tag (start + 1))
    else memoryDump buf start length
  else memoryDump buf 0 length

/-- The 0-by-0 char array that stands for an SQL NULL. -/
def emptyChar : FullArray where
  classId := MxClass.char.id
  elementSize := MxClass.char.elementSize
  dims := [0, 0]
  re := []
  im := none
  re_length := (Nat.mul_zero MxClass.char.elementSize).symm
  im_length := fun _ h => by cases h

/-- `deserialize(rpSerial, rlength)`, where `rpSerial` is NULL or points to the memory
`mem`. -/
def deserialize (api : MxApi) (zlib : Zlib) (use32 : Bool) (rpSerial : Option Bytes)
    (rlength : Nat) : Result Fetched :=
  match rpSerial with
  | none => .ok (.value (.full emptyChar))
  | some mem => do
    let (buf, length) ← inflate api zlib use32 mem rlength
    deserializeBuffer api use32 mem buf length

end Mym
