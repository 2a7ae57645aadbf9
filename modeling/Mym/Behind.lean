import Mym.ColumnCreation
import Mym.CommandRoundTrip
import Mym.Extended

/-!
# What lies behind an object

A column is fetched into memory that goes on behind its bytes, and the `deserialize` command is given
the bytes alone.  What the command makes of a byte vector is what a column with these bytes is fetched
as (`fetched_as_deserialized`).
-/

namespace Mym

/-! ### The command and the column -/

theorem ByteVector.max_dims (b : ByteVector) (hne : b.arr.re ≠ []) :
    max (b.arr.dims[0]?.getD 0) (b.arr.dims[1]?.getD 0) = b.arr.re.length := by
  have hlen : b.arr.re.length = b.arr.dims.prod := by
    rw [b.arr.re_length, b.elementSize, Nat.one_mul]
  have hpos : 0 < b.arr.dims.prod := hlen ▸ List.length_pos_iff.mpr hne
  have hvector := b.vector
  simp only [MxArray.isVector, MxArray.dims, Bool.and_eq_true, beq_iff_eq, Bool.or_eq_true] at hvector
  rw [hlen]
  match hdims : b.arr.dims with
  | [m, n] =>
    rw [hdims] at hvector hpos
    simp only [List.prod_cons, List.prod_nil, Nat.mul_one] at hpos ⊢
    rcases hvector.2 with h | h
    · cases h
      show max 1 n = 1 * n
      omega
    · cases h
      show max m 1 = m * 1
      omega
  | [] | [_] | _ :: _ :: _ :: _ =>
    rw [hdims] at hvector
    cases hvector.1

section

variable {p : Platform} {api : ResultApi} {command : MxArray} {q : Query}

theorem deserializeValue_byteVector (b : ByteVector) (hne : b.arr.re ≠ []) :
    deserializeValue p (.full b.arr)
      = deserialize p.api p.zlib p.use32 (some b.arr.re) b.arr.re.length := by
  have hdata : (MxArray.full b.arr).data = .ok (some b.arr.re) := congrArg Outcome.ok (if_neg hne)
  rw [deserializeValue, hdata, Outcome.ok_bind]
  show deserialize _ _ _ _ (max (b.arr.dims[0]?.getD 0) (b.arr.dims[1]?.getD 0)) = _
  rw [b.max_dims hne]

/-- **What `deserialize` makes of a byte vector is what a column with these bytes is fetched as**,
where it makes a value of it, and whatever it does with a vector that is not compressed as long as it
stays inside the bytes. -/
theorem fetched_as_deserialized (hstable : p.zlib.Stable) (hmemory : api.memory = p.api)
    (hzlib : api.zlib = p.zlib) (h32 : api.use32 = p.use32) (hchar : command.isChar = true)
    (hquery : p.mxGetString command = some q.text) (hq : classify q.text = .DESERIALIZE)
    (b : ByteVector) (hne : b.arr.re ≠ []) (w : World) (a : Answers) (behind : Bytes) :
    (∀ v, mym p w 1 [command, .full b.arr] a = (w, .ok (.value (.value v))) →
      fetchedBlob api (some ⟨b.arr.re, behind⟩) = .ok (.value v)) ∧
    (¬Framed b.arr.re → Outcome.Stays (mym p w 1 [command, .full b.arr] a).2
      (fetchedBlob api (some ⟨b.arr.re, behind⟩) >>= fun r => .ok (.value r))) := by
  have hfetched : fetchedBlob api (some ⟨b.arr.re, behind⟩)
      = deserialize p.api p.zlib p.use32 (some (b.arr.re ++ 0 :: behind)) b.arr.re.length := by
    rw [← hmemory, ← hzlib, ← h32]
    rfl
  rw [mym_deserialize hchar hquery hq, deserializeValue_byteVector b hne, hfetched]
  refine ⟨fun v h => ?_, fun hf => ?_⟩
  · obtain ⟨r, hr, h⟩ := Outcome.bind_eq_ok (congrArg Prod.snd h)
    cases h
    exact deserialize_value_append (0 :: behind) hstable hr
  · exact (deserialize_stays (0 :: behind) hf _).bind fun r => .refl _

end

/-- A zlib that stores everything behind its length, and takes no stream that is cut off. -/
def lengthZlib : Zlib where
  compress p := if p.length < 2 ^ 64 then some (leBytes 8 p.length ++ p) else none
  uncompress src cap :=
    if src.length < 8 + leNat (src.take 8) ∨ cap < leNat (src.take 8) then none
    else some ((src.drop 8).take (leNat (src.take 8)))
  uncompress_le := by
    intro src cap out h
    split at h
    · cases h
    · next hno =>
      cases h
      exact Nat.le_trans (List.length_take_le _ _) (Nat.not_lt.mp fun hlt => hno (Or.inr hlt))

theorem lengthZlib_stable : lengthZlib.Stable := by
  intro src cap out h more
  simp only [lengthZlib] at h ⊢
  split at h
  · cases h
  · next hno =>
    have hlen : 8 + leNat (src.take 8) ≤ src.length := Nat.not_lt.mp fun hlt => hno (Or.inl hlt)
    have hcap : leNat (src.take 8) ≤ cap := Nat.not_lt.mp fun hlt => hno (Or.inr hlt)
    have htake : (src ++ more).take 8 = src.take 8 := List.take_append_of_le_length (by omega)
    rw [htake, if_neg, List.drop_append_of_le_length (by omega), List.take_append_of_le_length, h]
    · rw [List.length_drop]
      omega
    · rw [List.length_append]
      omega

/-- The sample as it is stored, in a 1-by-n `uint8` array. -/
def sampleBytes : ByteVector where
  arr := byteRow (marked 8 sampleTree.val)
  uint8 := rfl
  elementSize := rfl
  vector := rfl

def deserializeOne : Query where
  text := textOf deserializeWord
  length_lt := by decide

/-- The command reads the sample. -/
theorem deserialize_sampleBytes :
    deserialize documentedApi lengthZlib false (some sampleBytes.arr.re) sampleBytes.arr.re.length
      = .ok (.value sampleTree.val.norm) := by
  have hlen : (marked 8 sampleTree.val).length < 2 ^ 64 := by decide +kernel
  have hat : At (marked 8 sampleTree.val) 0 (marked (uintWidth false) sampleTree.val) := at_self _
  have hfits : sampleTree.val.All (MxArray.NodeFits (uintWidth false)) := by
    refine fits_of_shaped _ sampleTree.shaped ?_
    rw [marked, List.length_append] at hlen
    omega
  have hread := deserialize_marked false documentedApi_creates lengthZlib sampleTree.val
    sampleTree.known sampleTree.shaped hfits hlen hat (marked 8 sampleTree.val).length
  rw [expected, if_pos (by decide)] at hread
  exact hread

/-- The sample, in a column with something behind it. -/
theorem fetched_as_deserialized_sample :
    let p : Platform := { runPlatform with zlib := lengthZlib }
    let api : ResultApi := { plainResultApi with zlib := lengthZlib }
    let x := mym p World.start 1 [charArray deserializeWord, .full sampleBytes.arr] (allWell [] 1)
    let fetched := fetchedBlob api (some ⟨sampleBytes.arr.re, [1, 2]⟩)
    x = (World.start, .ok (.value (.value sampleTree.val.norm))) ∧
    fetched = .ok (.value sampleTree.val.norm) ∧
    (¬Framed sampleBytes.arr.re →
      Outcome.Stays x.2 (fetched >>= fun r => .ok (.value r))) := by
  intro p api x fetched
  have hne : sampleBytes.arr.re ≠ [] := List.cons_ne_nil _ _
  have hx : x = (World.start, .ok (.value (.value sampleTree.val.norm))) := by
    have h : x = (World.start, deserializeValue p (.full sampleBytes.arr) >>= _) :=
      mym_deserialize (q := deserializeOne) rfl rfl (by decide) World.start _ (allWell [] 1)
    have hread : deserialize p.api p.zlib p.use32 (some sampleBytes.arr.re) _ = _ :=
      deserialize_sampleBytes
    rw [h, deserializeValue_byteVector sampleBytes hne, hread]
    rfl
  have h : (∀ v, x = (World.start, .ok (.value (.value v))) → fetched = .ok (.value v)) ∧ _ :=
    fetched_as_deserialized lengthZlib_stable rfl rfl rfl rfl (q := deserializeOne) rfl (by decide)
      sampleBytes hne World.start (allWell [] 1) [1, 2]
  exact ⟨hx, h.1 _ hx, h.2⟩

end Mym
