import Mym.Walk

/-!
# What a header announces

For each kind of node, the extents its header announces and the header itself, as
statements about the bytes: `HeadFits` says that all of them lie in the memory,
`HeadRefused` that the header is turned down, because there is no memory for what it announces,
the API cannot create the array or the type byte is unknown.  `nodeHead` reads outside exactly when the
extents do not fit (`nodeHead_outside`), and raises exactly when the header is refused
(`nodeHead_raised`).

With the nodes that are reached, this describes the decoder as a whole: it reads outside the
memory unless `Fits`, and raises exactly when `Refused`.
-/

namespace Mym

section

variable (api : MxApi) (use32 : Bool) (mem : Bytes)

/-! ### Extents -/

/-- The count and the dimensions of an array. -/
def dimsAt (pos : Nat) : List Nat :=
  let n := wordAt mem pos (uintWidth use32)
  toWords (uintWidth use32) n ((mem.drop (pos + uintWidth use32)).take (uintWidth use32 * n))

def dimsEnd (pos : Nat) : Nat :=
  pos + uintWidth use32 + uintWidth use32 * wordAt mem pos (uintWidth use32)

/-- There is memory for as many dimensions as the count says. -/
def dimsGranted (pos : Nat) : Bool := api.mxCalloc (wordAt mem pos (uintWidth use32)) sizeofWord

/-- The count lies in the memory, and so do the dimensions once there is memory for them. -/
def DimensionsFit (pos : Nat) : Prop :=
  Inside mem pos (uintWidth use32) ∧ (dimsGranted api use32 mem pos = true →
    Inside mem (pos + uintWidth use32) (uintWidth use32 * wordAt mem pos (uintWidth use32)))

def DimensionsRefused (pos : Nat) : Prop :=
  Inside mem pos (uintWidth use32) ∧ dimsGranted api use32 mem pos = false

/-- The dimensions are read. -/
def DimsInside (pos : Nat) : Prop :=
  DimensionsFit api use32 mem pos ∧ dimsGranted api use32 mem pos = true

/-- The dimensions, the class and the complexity of a full array. -/
def ArrayHeadInside (pos : Nat) : Prop :=
  DimsInside api use32 mem pos ∧ Inside mem (dimsEnd use32 mem pos) (2 * sizeofInt)

/-- The element size of the array that is asked for. -/
def arrayCreated (pos : Nat) : Option Nat :=
  let p := dimsEnd use32 mem pos
  api.createNumeric (dimsAt use32 mem pos) (wordAt mem p sizeofInt)
    (wordAt mem (p + sizeofInt) sizeofInt)

/-- The header, the real and the imaginary data lie in the memory. -/
def ArrayFits (pos : Nat) : Prop :=
  let p := dimsEnd use32 mem pos
  DimensionsFit api use32 mem pos ∧ (DimsInside api use32 mem pos →
    Inside mem p (2 * sizeofInt) ∧ ∀ s ∈ arrayCreated api use32 mem pos,
      let size := s * (mxDims (dimsAt use32 mem pos)).prod
      Inside mem (p + 2 * sizeofInt) size ∧
        (wordAt mem (p + sizeofInt) sizeofInt = 1 → Inside mem (p + 2 * sizeofInt + size) size))

def ArrayRefused (pos : Nat) : Prop :=
  DimensionsRefused api use32 mem pos ∨
    ArrayHeadInside api use32 mem pos ∧ arrayCreated api use32 mem pos = none

/-- The rows, columns, entries, class and complexity of a sparse matrix. -/
def SparseHeadInside (pos : Nat) : Prop := Inside mem pos (3 * uintWidth use32 + 2 * sizeofInt)

def sparseEnd (pos : Nat) : Nat := pos + uintWidth use32 + uintWidth use32 + uintWidth use32

def sparseIsLogical (pos : Nat) : Bool :=
  wordAt mem (sparseEnd use32 pos) sizeofInt == MxClass.logical.id

/-- The matrix that is asked for can be created. -/
def sparseCreated (pos : Nat) : Bool :=
  api.createSparse (sparseIsLogical use32 mem pos) (wordAt mem pos (uintWidth use32))
    (wordAt mem (pos + uintWidth use32) (uintWidth use32))
    (wordAt mem (pos + uintWidth use32 + uintWidth use32) (uintWidth use32))
    (wordAt mem (sparseEnd use32 pos + sizeofInt) sizeofInt)

/-- Column starts, row indices, real and imaginary data, one behind the other from `p`. -/
def SparseDataInside (isLogical : Bool) (columns nzmax complexity p : Nat) : Prop :=
  let ir := p + uintWidth use32 * (columns + 1)
  let re := ir + uintWidth use32 * nzmax
  let size := (sparseClass isLogical).elementSize * nzmax
  Inside mem p (uintWidth use32 * (columns + 1)) ∧ Inside mem ir (uintWidth use32 * nzmax) ∧
    Inside mem re size ∧ (complexity = 1 → isLogical = false → Inside mem (re + size) size)

def SparseFits (pos : Nat) : Prop :=
  SparseHeadInside use32 mem pos ∧ (sparseCreated api use32 mem pos = true →
    SparseDataInside use32 mem (sparseIsLogical use32 mem pos)
      (wordAt mem (pos + uintWidth use32) (uintWidth use32))
      (wordAt mem (pos + uintWidth use32 + uintWidth use32) (uintWidth use32))
      (wordAt mem (sparseEnd use32 pos + sizeofInt) sizeofInt)
      (sparseEnd use32 pos + 2 * sizeofInt))

def SparseRefused (pos : Nat) : Prop :=
  SparseHeadInside use32 mem pos ∧ sparseCreated api use32 mem pos = false

/-- The field names lie in the memory: `n` times there is a NUL to end them. -/
def NamesInside (p n : Nat) : Prop := n ≤ (mem.drop p).count 0

/-- The number of fields stands behind the dimensions. -/
def fieldCount (pos : Nat) : Int := toInt32 (wordAt mem (dimsEnd use32 mem pos) sizeofInt)

/-- There is memory for as many names as there are fields. -/
def namesGranted (pos : Nat) : Bool :=
  api.mxCalloc (fieldCount use32 mem pos % 2 ^ 64).toNat sizeofWord

/-- The dimensions are read, and an `int` counter gets through them. -/
def DimsRead (pos : Nat) : Prop :=
  DimsInside api use32 mem pos ∧ (dimsAt use32 mem pos).length < 2 ^ 31

/-- The dimensions, the number of fields and the names of a struct array. -/
def StructFits (pos : Nat) : Prop :=
  DimensionsFit api use32 mem pos ∧ (DimsRead api use32 mem pos →
    let p := dimsEnd use32 mem pos
    Inside mem p sizeofInt ∧ (namesGranted api use32 mem pos = true →
      NamesInside mem (p + sizeofInt) (fieldCount use32 mem pos).toNat))

def StructRefused (pos : Nat) : Prop :=
  let p := dimsEnd use32 mem pos
  DimensionsRefused api use32 mem pos ∨
    DimsRead api use32 mem pos ∧ Inside mem p sizeofInt ∧ (namesGranted api use32 mem pos = false ∨
      ∃ ss q, readNames mem (fieldCount use32 mem pos).toNat (p + sizeofInt) = .ok (ss, q) ∧
        api.createStruct (dimsAt use32 mem pos) ss = false)

def CellRefused (pos : Nat) : Prop :=
  DimensionsRefused api use32 mem pos ∨
    DimsRead api use32 mem pos ∧ api.createCell (dimsAt use32 mem pos) = false

/-! ### Nodes -/

/-- Everything the header of the node announces lies in the memory. -/
def HeadFits (c : Node) : Prop :=
  if c.1 = idArray then ArrayFits api use32 mem c.2
  else if c.1 = idSparse then SparseFits api use32 mem c.2
  else if c.1 = idStruct then StructFits api use32 mem c.2
  else if c.1 = idCell then DimensionsFit api use32 mem c.2
  else True

/-- The header of the node is turned down. -/
def HeadRefused (c : Node) : Prop :=
  if c.1 = idArray then ArrayRefused api use32 mem c.2
  else if c.1 = idSparse then SparseRefused api use32 mem c.2
  else if c.1 = idStruct then StructRefused api use32 mem c.2
  else if c.1 = idCell then CellRefused api use32 mem c.2
  else True

/-- The headers the decoder gets to fit the memory, and so do the lengths and type bytes of
the elements. -/
def Fits (root : Node) : Prop :=
  (∀ c, Reached api use32 mem root c → HeadFits api use32 mem c) ∧
    ∀ h k, ReachesElement api use32 mem root h k → ElementInside use32 mem h.first k

/-- The decoder gets to a header that is turned down. -/
def Refused (root : Node) : Prop :=
  ∃ c, Reached api use32 mem root c ∧ HeadRefused api use32 mem c

end

section

variable {api : MxApi} {use32 : Bool} {mem : Bytes} {b : Outcome.Stop MexError}

/-! ### Leaves -/

theorem readUint_stop {pos : Nat} :
    (readUint use32 mem pos).stop = some b ↔
      b = .outside ∧ ¬Inside mem pos (uintWidth use32) := by
  rw [readUint, Outcome.stop_bind, readWord_stop]
  simp

theorem readUint_eq_ok {pos : Nat} {r : Nat × Nat} :
    readUint use32 mem pos = .ok r ↔
      Inside mem pos (uintWidth use32) ∧
        r = (wordAt mem pos (uintWidth use32), pos + uintWidth use32) := by
  refine ⟨?_, ?_⟩
  · intro h
    obtain ⟨n, hn, hr⟩ := Outcome.bind_eq_ok h
    obtain ⟨hin, rfl⟩ := readWord_eq_ok.mp hn
    cases hr
    exact ⟨hin, rfl⟩
  · intro hw
    obtain ⟨hin, rfl⟩ := hw
    rw [readUint, readWord_eq_ok.mpr ⟨hin, rfl⟩]
    rfl

theorem readDims_stop {pos : Nat} :
    (readDims api use32 mem pos).stop = some b ↔
      (b = .outside ∧ ¬DimensionsFit api use32 mem pos) ∨
        (b = .raised .matlab ∧ DimensionsRefused api use32 mem pos) := by
  rw [readDims, Outcome.stop_bind, readUint_stop, DimensionsFit, DimensionsRefused, dimsGranted]
  by_cases h : Inside mem pos (uintWidth use32)
  · rw [readUint_eq_ok.mpr ⟨h, rfl⟩]
    cases hc : api.mxCalloc (wordAt mem pos (uintWidth use32)) sizeofWord with
    | true => simp [h, hc, readUints, Outcome.stop_bind, readWords_stop]
    | false => simp [h, hc]
  · simp only [readUint_eq_ok, h]
    simp

theorem readDims_eq_ok {pos : Nat} {r : List Nat × Nat} :
    readDims api use32 mem pos = .ok r ↔
      DimsInside api use32 mem pos ∧ r = (dimsAt use32 mem pos, dimsEnd use32 mem pos) := by
  refine ⟨?_, ?_⟩
  · intro h
    obtain ⟨a, ha, h⟩ := Outcome.bind_eq_ok h
    obtain ⟨hin, rfl⟩ := readUint_eq_ok.mp ha
    dsimp only at h
    split at h
    · next hc =>
      obtain ⟨ns, hns, h⟩ := Outcome.bind_eq_ok h
      obtain ⟨ws, hws, hns⟩ := Outcome.bind_eq_ok hns
      obtain ⟨hin', hwords⟩ := readWords_eq_ok.mp hws
      cases hns
      cases h
      exact ⟨⟨⟨hin, fun _ => hin'⟩, hc⟩, by rw [hwords]; rfl⟩
    · cases h
  · intro hw
    obtain ⟨⟨⟨hin, hin'⟩, hc⟩, rfl⟩ := hw
    have hgranted : api.mxCalloc (wordAt mem pos (uintWidth use32)) sizeofWord = true := hc
    rw [readDims, readUint_eq_ok.mpr ⟨hin, rfl⟩, Outcome.ok_bind]
    simp only [hgranted, if_true, readUints, readWords_of_inside (hin' hc), Outcome.ok_bind]
    rfl

theorem DimsInside.not_refused {pos : Nat} (h : DimsInside api use32 mem pos) :
    ¬DimensionsRefused api use32 mem pos := fun hr => absurd (hr.2.symm.trans h.2) (by decide)

/-- A decoder that begins with the dimensions stops in them, or behind them. -/
theorem readDims_bind_stop {pos : Nat} {α : Type} {f : List Nat × Nat → Result α} :
    (readDims api use32 mem pos >>= f).stop = some b ↔
      (DimsInside api use32 mem pos ∧
        (f (dimsAt use32 mem pos, dimsEnd use32 mem pos)).stop = some b) ∨
      (¬DimsInside api use32 mem pos ∧ ((b = .outside ∧ ¬DimensionsFit api use32 mem pos) ∨
        (b = .raised .matlab ∧ DimensionsRefused api use32 mem pos))) := by
  by_cases hd : DimsInside api use32 mem pos
  · rw [readDims_eq_ok.mpr ⟨hd, rfl⟩, Outcome.ok_bind]
    simp [hd]
  · simp [Outcome.stop_bind, readDims_stop, readDims_eq_ok, hd]

theorem inside_two {pos m n : Nat} (hm : m ≠ 0) (hn : n ≠ 0) :
    Inside mem pos (m + n) ↔ Inside mem pos m ∧ Inside mem (pos + m) n := by
  rw [inside_iff hm, inside_iff hn, inside_iff (by omega)]
  omega

theorem deserializeArray_stop {pos : Nat} :
    (deserializeArray api use32 mem pos).stop = some b ↔
      (b = .outside ∧ ¬ArrayFits api use32 mem pos) ∨
        (b = .raised .matlab ∧ ArrayRefused api use32 mem pos) := by
  have hhead : Inside mem (dimsEnd use32 mem pos) (2 * sizeofInt) ↔
      Inside mem (dimsEnd use32 mem pos) sizeofInt ∧
        Inside mem (dimsEnd use32 mem pos + sizeofInt) sizeofInt :=
    inside_two (by decide : sizeofInt ≠ 0) (by decide : sizeofInt ≠ 0)
  rw [deserializeArray, readDims_bind_stop, ArrayFits, ArrayRefused, ArrayHeadInside, hhead]
  by_cases hd : DimsInside api use32 mem pos
  · simp only [hd, hd.1, hd.not_refused, Outcome.stop_bind, readWord_stop, readWord_eq_ok, and_assoc,
      exists_eq_left, exists_and_left]
    by_cases h1 : Inside mem (dimsEnd use32 mem pos) sizeofInt
    · by_cases h2 : Inside mem (dimsEnd use32 mem pos + sizeofInt) sizeofInt
      · simp only [h1, h2, arrayCreated]
        cases api.createNumeric (dimsAt use32 mem pos) (wordAt mem (dimsEnd use32 mem pos) sizeofInt)
            (wordAt mem (dimsEnd use32 mem pos + sizeofInt) sizeofInt) with
        | none => simp
        | some s =>
          simp only [Option.mem_def, Option.some.injEq, forall_eq', and_false, or_false, reduceCtorEq]
          by_cases h3 : Inside mem (dimsEnd use32 mem pos + 2 * sizeofInt)
              (s * (mxDims (dimsAt use32 mem pos)).prod)
          · obtain ⟨hlen, he⟩ := readBytes_of_inside (ε := MexError) h3
            rw [he, Outcome.ok_bind]
            by_cases hc : wordAt mem (dimsEnd use32 mem pos + sizeofInt) sizeofInt = 1
            · rw [if_pos hc, Outcome.stop_bind, readBytes_stop]
              simp [h3, hc]
            · rw [if_neg hc]
              simp [h3, hc]
          · rw [Outcome.stop_eq_outside.mp (readBytes_stop.mpr ⟨rfl, h3⟩)]
            simp [h3]
      · simp [h1, h2]
    · simp [h1]
  · simp [hd]

theorem readUints_stop {pos n : Nat} :
    (readUints use32 mem pos n).stop = some b ↔
      b = .outside ∧ ¬Inside mem pos (uintWidth use32 * n) := by
  rw [readUints, Outcome.stop_bind, readWords_stop]
  simp

theorem readUints_of_inside {pos n : Nat} (h : Inside mem pos (uintWidth use32 * n)) :
    ∃ ns, readUints use32 mem pos n = .ok (ns, pos + uintWidth use32 * n) := by
  rw [readUints, readWords_of_inside h]
  exact ⟨_, rfl⟩

theorem sparseData_stop {isLogical : Bool} {rows columns nzmax complexity p : Nat}
    (hb : b ≠ .undefined) :
    (sparseData use32 mem isLogical rows columns nzmax complexity p).stop = some b ↔
      b = .outside ∧ ¬SparseDataInside use32 mem isLogical columns nzmax complexity p := by
  rw [sparseData, SparseDataInside]
  by_cases h1 : Inside mem p (uintWidth use32 * (columns + 1))
  · obtain ⟨jc, hjc⟩ := readUints_of_inside h1
    rw [hjc, Outcome.ok_bind]
    dsimp only
    by_cases h2 : Inside mem (p + uintWidth use32 * (columns + 1)) (uintWidth use32 * nzmax)
    · obtain ⟨ir, hir⟩ := readUints_of_inside h2
      rw [hir, Outcome.ok_bind]
      dsimp only
      by_cases h3 : Inside mem (p + uintWidth use32 * (columns + 1) + uintWidth use32 * nzmax)
          ((sparseClass isLogical).elementSize * nzmax)
      · obtain ⟨hlen, hre⟩ := readBytes_of_inside (ε := MexError) h3
        rw [hre, Outcome.ok_bind]
        by_cases hc : complexity = 1
        · rw [if_pos hc]
          cases isLogical with
          | true =>
            rw [dif_pos rfl]
            split
            · simp [h1, h2, h3]
            · simp [h1, h2, h3, hb]
          | false =>
            rw [dif_neg (by decide), Outcome.stop_bind, readBytes_stop]
            simp [h1, h2, h3, hc]
        · rw [if_neg hc]
          simp [h1, h2, h3, hc]
      · rw [Outcome.stop_eq_outside.mp (readBytes_stop.mpr ⟨rfl, h3⟩)]
        simp [h3]
    · rw [Outcome.stop_eq_outside.mp (readUints_stop.mpr ⟨rfl, h2⟩)]
      simp [h2]
  · rw [Outcome.stop_eq_outside.mp (readUints_stop.mpr ⟨rfl, h1⟩)]
    simp [h1]

theorem deserializeSparse_stop {pos : Nat} (hb : b ≠ .undefined) :
    (deserializeSparse api use32 mem pos).stop = some b ↔
      (b = .outside ∧ ¬SparseFits api use32 mem pos) ∨
        (b = .raised .matlab ∧ SparseRefused api use32 mem pos) := by
  have hhead : SparseHeadInside use32 mem pos ↔ Inside mem pos (uintWidth use32) ∧
      Inside mem (pos + uintWidth use32) (uintWidth use32) ∧
      Inside mem (pos + uintWidth use32 + uintWidth use32) (uintWidth use32) ∧
      Inside mem (sparseEnd use32 pos) sizeofInt ∧
      Inside mem (sparseEnd use32 pos + sizeofInt) sizeofInt := by
    have hw : uintWidth use32 ≠ 0 := by cases use32 <;> decide
    have hi : sizeofInt ≠ 0 := by decide
    rw [SparseHeadInside, sparseEnd, inside_iff hw, inside_iff hw, inside_iff hw, inside_iff hi,
      inside_iff hi, inside_iff (by omega)]
    omega
  have hend : pos + uintWidth use32 + uintWidth use32 + uintWidth use32 = sparseEnd use32 pos := rfl
  rw [deserializeSparse, Outcome.stop_bind, readUint_stop]
  simp only [readUint_eq_ok, and_assoc, exists_eq_left, exists_and_left, Outcome.stop_bind,
    readUint_stop, readWord_stop, readWord_eq_ok, hend]
  rw [SparseFits, SparseRefused, hhead]
  by_cases h1 : Inside mem pos (uintWidth use32)
  · by_cases h2 : Inside mem (pos + uintWidth use32) (uintWidth use32)
    · by_cases h3 : Inside mem (pos + uintWidth use32 + uintWidth use32) (uintWidth use32)
      · by_cases h4 : Inside mem (sparseEnd use32 pos) sizeofInt
        · by_cases h5 : Inside mem (sparseEnd use32 pos + sizeofInt) sizeofInt
          · cases hc : sparseCreated api use32 mem pos with
            | true =>
              rw [sparseCreated, sparseIsLogical] at hc
              rw [if_pos hc, sparseData_stop hb, sparseIsLogical]
              simp [h1, h2, h3, h4, h5]
            | false =>
              rw [sparseCreated, sparseIsLogical] at hc
              rw [if_neg (by rw [hc]; decide)]
              simp [h1, h2, h3, h4, h5]
          · simp [h1, h2, h3, h4, h5]
        · simp [h1, h2, h3, h4]
      · simp [h1, h2, h3]
    · simp [h1, h2]
  · simp [h1]

/-! ### Containers -/

/-- A string read consumes one of the NULs that are left, and needs one. -/
theorem readCStr_cases {ε : Type} (mem : Bytes) (p : Nat) :
    ((mem.drop p).count 0 = 0 ∧ readCStr (ε := ε) mem p = .outside) ∨
      ∃ s, readCStr (ε := ε) mem p = .ok s ∧
        (mem.drop p).count 0 = (mem.drop (p + s.1.length + 1)).count 0 + 1 := by
  by_cases h : (0 : UInt8) ∈ mem.drop p
  · obtain ⟨s, t, he, hs⟩ := List.eq_append_cons_of_mem h
    have hat : At mem p (s ++ [0]) := ⟨t, by rw [he, List.append_assoc]; rfl⟩
    have hdrop : mem.drop (p + s.length + 1) = t := by
      rw [Nat.add_assoc, ← List.drop_drop, he]
      simp
    refine Or.inr ⟨⟨s, hs⟩, readCStr_of_at hat, ?_⟩
    rw [hdrop, he, List.count_append, List.count_cons_self, List.count_eq_zero.mpr hs]
    omega
  · refine Or.inl ⟨List.count_eq_zero.mpr h, ?_⟩
    have hall : (mem.drop p).takeWhile (· ≠ 0) = mem.drop p :=
      List.takeWhile_eq_self_iff.mpr fun c hc => decide_eq_true fun h0 => h (h0 ▸ hc)
    unfold readCStr
    simp only [hall, List.length_drop]
    rw [if_neg (by omega)]

theorem readNames_stop {n p : Nat} :
    (readNames mem n p).stop = some b ↔ b = .outside ∧ ¬NamesInside mem p n := by
  induction n generalizing p with
  | zero => simp [readNames, NamesInside]
  | succ n ih =>
    rw [readNames, NamesInside]
    rcases readCStr_cases (ε := MexError) mem p with ⟨h0, h⟩ | ⟨s, h, hc⟩
    · rw [h, h0]
      simp
    · rw [h, Outcome.ok_bind, Outcome.stop_bind, ih, NamesInside, hc]
      simp

theorem countElements_of_lt {dims : List Nat} (h : dims.length < 2 ^ 31) :
    ∃ nelts, countElements dims = .ok nelts := ⟨_, if_pos h⟩

theorem structHead_stop {pos : Nat} (hb : b ≠ .undefined) :
    (structHead api use32 mem pos).stop = some b ↔
      (b = .outside ∧ ¬StructFits api use32 mem pos) ∨
        (b = .raised .matlab ∧ StructRefused api use32 mem pos) := by
  rw [structHead, readDims_bind_stop, StructFits, StructRefused]
  by_cases h1 : DimsInside api use32 mem pos
  · simp only [h1, h1.1, h1.not_refused, true_and, not_true, false_and, or_false, false_or]
    by_cases h2 : (dimsAt use32 mem pos).length < 2 ^ 31
    · have hr : DimsRead api use32 mem pos := ⟨h1, h2⟩
      obtain ⟨nelts, hn⟩ := countElements_of_lt h2
      rw [hn, Outcome.ok_bind]
      by_cases h3 : Inside mem (dimsEnd use32 mem pos) sizeofInt
      · rw [readWord_eq_ok.mpr ⟨h3, rfl⟩, Outcome.ok_bind, ← fieldCount]
        cases h4 : namesGranted api use32 mem pos with
        | false =>
          rw [namesGranted] at h4
          rw [h4]
          simp [hr, h3]
        | true =>
          rw [namesGranted] at h4
          rw [if_pos h4]
          by_cases h5 : NamesInside mem (dimsEnd use32 mem pos + sizeofInt)
              (fieldCount use32 mem pos).toNat
          · obtain ⟨⟨ss, q⟩, hss⟩ := Outcome.stop_eq_none.mp
              (Option.eq_none_iff_forall_ne_some.mpr fun b hb => (readNames_stop.mp hb).2 h5)
            rw [hss, Outcome.ok_bind]
            dsimp only
            cases hc : api.createStruct (dimsAt use32 mem pos) ss with
            | true => simp [hr, h3, h5, hc]
            | false => simp [hr, h3, h5, hc]
          · rw [Outcome.stop_eq_outside.mp (readNames_stop.mpr ⟨rfl, h5⟩)]
            simp [hr, h3, h5]
      · rw [Outcome.stop_eq_outside.mp (readWord_stop.mpr ⟨rfl, h3⟩)]
        simp [hr, h3]
    · have hr : ¬DimsRead api use32 mem pos := fun h => h2 h.2
      rw [countElements, if_neg h2]
      simp [hr, hb]
  · have hr : ¬DimsRead api use32 mem pos := fun h => h1 h.1
    simp [h1, hr]

theorem cellHead_stop {pos : Nat} (hb : b ≠ .undefined) :
    (cellHead api use32 mem pos).stop = some b ↔
      (b = .outside ∧ ¬DimensionsFit api use32 mem pos) ∨
        (b = .raised .matlab ∧ CellRefused api use32 mem pos) := by
  rw [cellHead, readDims_bind_stop, CellRefused]
  by_cases h1 : DimsInside api use32 mem pos
  · simp only [h1, h1.1, h1.not_refused, true_and, not_true, false_and, or_false, false_or]
    by_cases h2 : (dimsAt use32 mem pos).length < 2 ^ 31
    · have hr : DimsRead api use32 mem pos := ⟨h1, h2⟩
      obtain ⟨nelts, hn⟩ := countElements_of_lt h2
      rw [hn, Outcome.ok_bind]
      cases hc : api.createCell (dimsAt use32 mem pos) with
      | true => simp
      | false => simp [hr]
    · have hr : ¬DimsRead api use32 mem pos := fun h => h2 h.2
      rw [countElements, if_neg h2]
      simp [hr, hb]
  · have hr : ¬DimsRead api use32 mem pos := fun h => h1 h.1
    simp [h1, hr]

/-! ### Nodes -/

theorem nodeHead_outside {c : Node} :
    (nodeHead api use32 mem c).stop = some .outside ↔ ¬HeadFits api use32 mem c := by
  unfold nodeHead HeadFits
  split
  · simp [Outcome.stop_bind, deserializeArray_stop]
  split
  · simp [Outcome.stop_bind, deserializeSparse_stop]
  split
  · simp [Outcome.stop_bind, structHead_stop]
  split
  · simp [Outcome.stop_bind, cellHead_stop]
  · simp

theorem nodeHead_raised {c : Node} :
    (∃ e, (nodeHead api use32 mem c).stop = some (.raised e)) ↔ HeadRefused api use32 mem c := by
  unfold nodeHead HeadRefused
  split
  · simp [Outcome.stop_bind, deserializeArray_stop]
  split
  · simp [Outcome.stop_bind, deserializeSparse_stop]
  split
  · simp [Outcome.stop_bind, structHead_stop]
  split
  · simp [Outcome.stop_bind, cellHead_stop]
  · simp

/-- **The decoder stays inside its memory exactly when what it reaches fits.** -/
theorem decode_outside {root : Node} :
    decode api use32 mem root = .outside ↔ ¬Fits api use32 mem root := by
  rw [← Outcome.stop_eq_outside, decode_stop (by decide)]
  refine ⟨?_, ?_⟩
  · rintro ⟨c, hr, h | ⟨h, hc, ⟨k, hk, hb, hin, -⟩ | ⟨hu, -⟩ | ⟨-, hu, -⟩⟩⟩ hfits
    · exact nodeHead_outside.mp h (hfits.1 c hr)
    · exact hin (hfits.2 h k ⟨c, hr, hc, hk, hb⟩)
    · cases hu
    · cases hu
  · intro hno
    by_contra hstop
    refine hno ⟨fun c hr => ?_, fun h k hk => ?_⟩
    · by_contra hbad
      exact hstop ⟨c, hr, Or.inl (nodeHead_outside.mpr hbad)⟩
    · by_contra hin
      obtain ⟨c, hr, hc, hlt, hb⟩ := hk
      exact hstop ⟨c, hr, Or.inr ⟨h, hc, Or.inl ⟨k, hlt, hb, hin, rfl⟩⟩⟩

/-- **The decoder raises exactly when it reaches a header that is turned down.** -/
theorem decode_raised {root : Node} :
    (∃ e, decode api use32 mem root = .raised e) ↔ Refused api use32 mem root := by
  refine ⟨?_, ?_⟩
  · intro hw
    obtain ⟨e, he⟩ := hw
    obtain ⟨c, hr, h | ⟨h, -, ⟨k, -, -, -, hb⟩ | ⟨hb, -⟩ | ⟨-, hb, -⟩⟩⟩ :=
      (decode_stop (by simp)).mp (Outcome.stop_eq_raised.mpr he)
    · exact ⟨c, hr, nodeHead_raised.mp ⟨e, h⟩⟩
    · cases hb
    · cases hb
    · cases hb
  · intro hw
    obtain ⟨c, hr, h⟩ := hw
    obtain ⟨e, he⟩ := nodeHead_raised.mpr h
    exact ⟨e, Outcome.stop_eq_raised.mp ((decode_stop (by simp)).mpr ⟨c, hr, Or.inl he⟩)⟩

end

end Mym
