import Mym.Fallback
import Mym.Lib.Extension

/-!
# Decoding in a longer memory

A column is fetched into memory that goes on behind its bytes, and so is the payload of a frame.  A
decoder that stays inside the bytes does the same in both (`deserialize_value_append`,
`deserialize_stays`).
-/

namespace Mym

/-- The documented behaviour: a stream that is complete is read up to its end, whatever follows it. -/
def Zlib.Stable (zlib : Zlib) : Prop :=
  ∀ {src cap out}, zlib.uncompress src cap = some out → ∀ more,
    zlib.uncompress (src ++ more) cap = some out

section

variable {api : MxApi} {use32 : Bool} (mem more : Bytes)

/-! ### The decoders -/

theorem readUint_stays (pos : Nat) :
    Outcome.Stays (readUint use32 mem pos) (readUint use32 (mem ++ more) pos) :=
  (readWord_stays mem more pos _).bind fun _ => .refl _

theorem readUints_stays (pos n : Nat) :
    Outcome.Stays (readUints use32 mem pos n) (readUints use32 (mem ++ more) pos n) :=
  (readWords_stays mem more pos _ n).bind fun _ => .refl _

theorem readDims_stays (pos : Nat) :
    Outcome.Stays (readDims api use32 mem pos) (readDims api use32 (mem ++ more) pos) := by
  refine (readUint_stays mem more pos).bind fun n => ?_
  dsimp only
  split
  · exact (readUints_stays mem more _ _).bind fun _ => .refl _
  · exact .refl _

theorem deserializeArray_stays (pos : Nat) :
    Outcome.Stays (deserializeArray api use32 mem pos)
      (deserializeArray api use32 (mem ++ more) pos) := by
  refine (readDims_stays mem more pos).bind fun d => ?_
  refine (readWord_stays mem more _ _).bind fun classId => ?_
  refine (readWord_stays mem more _ _).bind fun complexity => ?_
  dsimp only
  cases api.createNumeric d.1 classId complexity with
  | none => exact .refl _
  | some elementSize =>
    refine (readBytes_stays mem more _ _).bind fun re => ?_
    split
    · exact (readBytes_stays mem more _ _).bind fun im => .refl _
    · exact .refl _

theorem sparseData_stays (isLogical : Bool) (rows columns nzmax complexity p : Nat) :
    Outcome.Stays (sparseData use32 mem isLogical rows columns nzmax complexity p)
      (sparseData use32 (mem ++ more) isLogical rows columns nzmax complexity p) := by
  refine (readUints_stays mem more _ _).bind fun jc => ?_
  refine (readUints_stays mem more _ _).bind fun ir => ?_
  refine (readBytes_stays mem more _ _).bind fun re => ?_
  dsimp only
  split
  · split
    · exact .refl _
    · exact (readBytes_stays mem more _ _).bind fun im => .refl _
  · exact .refl _

theorem deserializeSparse_stays (pos : Nat) :
    Outcome.Stays (deserializeSparse api use32 mem pos)
      (deserializeSparse api use32 (mem ++ more) pos) := by
  refine (readUint_stays mem more _).bind fun rows => ?_
  refine (readUint_stays mem more _).bind fun columns => ?_
  refine (readUint_stays mem more _).bind fun nzmax => ?_
  refine (readWord_stays mem more _ _).bind fun classId => ?_
  refine (readWord_stays mem more _ _).bind fun complexity => ?_
  dsimp only
  split
  · exact sparseData_stays mem more _ _ _ _ _ _
  · exact .refl _

theorem readNames_stays (n p : Nat) :
    Outcome.Stays (readNames mem n p) (readNames (mem ++ more) n p) := by
  induction n generalizing p with
  | zero => exact .refl _
  | succ n ih => exact (readCStr_stays mem more p).bind fun s => (ih _).bind fun _ => .refl _

theorem structHead_stays (pos : Nat) :
    Outcome.Stays (structHead api use32 mem pos) (structHead api use32 (mem ++ more) pos) := by
  refine (readDims_stays mem more pos).bind fun d => ?_
  refine (Outcome.Stays.refl _).bind fun nelts => ?_
  refine (readWord_stays mem more _ _).bind fun n => ?_
  dsimp only
  split
  · exact (readNames_stays mem more _ _).bind fun names => .refl _
  · exact .refl _

theorem cellHead_stays (pos : Nat) :
    Outcome.Stays (cellHead api use32 mem pos) (cellHead api use32 (mem ++ more) pos) :=
  (readDims_stays mem more pos).bind fun _ => .refl _

theorem nodeHead_stays (c : Node) :
    Outcome.Stays (nodeHead api use32 mem c) (nodeHead api use32 (mem ++ more) c) := by
  unfold nodeHead
  split
  · exact (deserializeArray_stays mem more c.2).bind fun _ => .refl _
  · split
    · exact (deserializeSparse_stays mem more c.2).bind fun _ => .refl _
    · split
      · exact (structHead_stays mem more c.2).bind fun _ => .refl _
      · split
        · exact (cellHead_stays mem more c.2).bind fun _ => .refl _
        · exact .refl _

theorem nodeBody_stays {f g : Node → Result MxArray} (h : ∀ c, Outcome.Stays (f c) (g c)) (c : Node) :
    Outcome.Stays (nodeBody api use32 mem f c) (nodeBody api use32 (mem ++ more) g c) := by
  refine (nodeHead_stays mem more c).bind fun
    | .leaf v => .refl _
    | .container hd => ?_
  refine (Outcome.Stays.forInt (fun s => ?_) hd.nelts _).bind fun s => .refl _
  refine Outcome.Stays.forInt (fun s => ?_) hd.nfields s
  refine (readUint_stays mem more _).bind fun n => (readByte_stays mem more _).bind fun tag => ?_
  exact (h (tag, _)).bind fun v => .refl _

/-- Both are deep enough for the longer memory. -/
theorem decode_stays (c : Node) :
    Outcome.Stays (decode api use32 mem c) (decode api use32 (mem ++ more) c) := by
  have hle : mem.length + 1 ≤ (mem ++ more).length + 1 := by
    rw [List.length_append]
    exact Nat.succ_le_succ (Nat.le_add_right _ _)
  rw [← unroll_decode hle, ← unroll_decode (Nat.le_refl ((mem ++ more).length + 1))]
  exact Outcome.Stays.unroll (fun f g => nodeBody_stays mem more) _ c

theorem memoryDump_stays (pos n : Nat) :
    Outcome.Stays (memoryDump mem pos n) (memoryDump (mem ++ more) pos n) :=
  (readBytes_stays mem more pos n).bind fun _ => .refl _

/-! ### The object itself -/

theorem catchNested_stays (n : Nat) {x y : Result MxArray} (h : Outcome.Stays x y) :
    Outcome.Stays (catchNested mem n x) (catchNested (mem ++ more) n y) := by
  rcases h with rfl | rfl
  · exact Or.inl rfl
  · cases x with
    | raised e => exact memoryDump_stays mem more 0 n
    | _ => exact .refl _

theorem deserializeBuffer_stays (n : Nat) :
    Outcome.Stays (deserializeBuffer api use32 mem mem n)
      (deserializeBuffer api use32 (mem ++ more) (mem ++ more) n) := by
  refine (sameAt_stays mem more toLower _ 0).bind fun isDj0 => ?_
  split
  · exact .refl _
  · refine (sameAt_stays mem more id _ 0).bind fun isMatlab => ?_
    split
    · refine (readByte_stays mem more _).bind fun tag => ?_
      split
      · exact catchNested_stays mem more n (decode_stays mem more (tag, _))
      · exact memoryDump_stays mem more _ n
    · exact memoryDump_stays mem more 0 n

variable {zlib : Zlib} {mem}

variable (api zlib use32) in
/-- An object without `ZL123` has none, whatever follows. -/
theorem inflated_unframed (hf : ¬Framed mem) (n : Nat) :
    inflated api zlib use32 mem n = .outside ∨ inflated api zlib use32 mem n = .ok .object ∧
      inflated api zlib use32 (mem ++ more) n = .ok .object := by
  rcases sameAt_cases (ε := MexError) id mem (zlibId ++ [0]) 0 with hout | ⟨flag, hz⟩
  · refine Or.inl ?_
    rw [inflated, strcmpEq, Outcome.stop_eq_outside.mp hout]
    rfl
  · have hmore : strcmpEq (mem ++ more) 0 zlibId = .ok flag := (sameAt_stays mem more id _ 0).ok hz
    cases flag with
    | true =>
      rw [sameAt_eq_true, List.map_id, List.map_id] at hz
      exact absurd hz hf
    | false =>
      refine Or.inr ⟨?_, ?_⟩
      · rw [inflated, strcmpEq, hz]
        rfl
      · rw [inflated, hmore]
        rfl

/-- What has been taken out of a frame is taken out of it whatever follows. -/
theorem inflated_append (hstable : zlib.Stable) {n len : Nat} {out : Bytes}
    (h : inflated api zlib use32 mem n = .ok (.payload out len)) :
    inflated api zlib use32 (mem ++ more) n = .ok (.payload out len) := by
  obtain ⟨flag, hz, h⟩ := Outcome.bind_eq_ok h
  have hz' : strcmpEq (mem ++ more) 0 zlibId = .ok flag := (sameAt_stays mem more id _ 0).ok hz
  cases flag with
  | false => cases h
  | true =>
    obtain ⟨⟨len', p⟩, hread, h⟩ := Outcome.bind_eq_ok h
    have hread' := (readUint_stays mem more _).ok hread
    dsimp only at h
    split at h
    · next hmemory =>
      cases hout : zlib.uncompress ((mem.drop (zlibId.length + 1 + uintWidth use32)).take n)
          (len' % 2 ^ 32) with
      | none =>
        simp only [uncompressWindow, hout] at h
        cases h
      | some bs =>
        simp only [uncompressWindow, hout] at h
        cases h
        have hwindow := hstable hout ((more.drop (zlibId.length + 1 + uintWidth use32
          - mem.length)).take (n - (mem.drop (zlibId.length + 1 + uintWidth use32)).length))
        rw [← List.take_append, ← List.drop_append] at hwindow
        rw [inflated, hz', Outcome.ok_bind, if_pos rfl, hread', Outcome.ok_bind]
        simp only [hmemory, if_true, uncompressWindow, hwindow]
    · cases h

/-- An object that does not inflate is no value. -/
theorem deserializeBuffer_framed (hf : Framed mem) (buf : Bytes) (n : Nat) (v : MxArray) :
    deserializeBuffer api use32 buf mem n ≠ .ok (.value v) := by
  intro h
  obtain ⟨isDj0, -, h⟩ := Outcome.bind_eq_ok h
  have hat : At mem 0 (zlibId ++ [0]) := hf
  have hm : strcmpEq mem 0 idMatlab = .ok false :=
    sameAt_of_head_ne id (at_cons.mp hat).1 (by decide)
  cases isDj0 with
  | true => cases h
  | false =>
    rw [if_neg (by decide), hm, Outcome.ok_bind, if_neg (by decide)] at h
    obtain ⟨bs, -, h⟩ := Outcome.bind_eq_ok h
    cases h

/-- A value is made of the buffer alone. -/
theorem deserializeBuffer_value {mem' buf : Bytes} {n : Nat} {v : MxArray}
    (h : deserializeBuffer api use32 mem buf n = .ok (.value v)) :
    deserializeBuffer api use32 mem' buf n = .ok (.value v) := by
  by_cases hc : Caught api use32 buf
  · rw [deserializeBuffer_caught hc] at h
    obtain ⟨bs, -, h⟩ := Outcome.bind_eq_ok h
    cases h
  · rw [← deserializeBuffer_congr hc mem, h]

/-- A value is read out of an object whatever follows it. -/
theorem deserialize_value_append (hstable : zlib.Stable) {n : Nat} {v : MxArray}
    (h : deserialize api zlib use32 (some mem) n = .ok (.value v)) :
    deserialize api zlib use32 (some (mem ++ more)) n = .ok (.value v) := by
  rw [deserialize_inflated] at h ⊢
  obtain ⟨s, hs, h⟩ := Outcome.bind_eq_ok h
  cases s with
  | object =>
    have hf : ¬Framed mem := fun hf => deserializeBuffer_framed hf mem n v h
    rcases inflated_unframed api use32 more zlib hf n with hout | ⟨-, hmore⟩
    · cases hs.symm.trans hout
    · rw [hmore]
      exact (deserializeBuffer_stays mem more n).ok h
  | payload out len =>
    rw [inflated_append more hstable hs]
    exact deserializeBuffer_value h

/-- What is not compressed is read alike, as far as it is read at all. -/
theorem deserialize_stays (hf : ¬Framed mem) (n : Nat) :
    Outcome.Stays (deserialize api zlib use32 (some mem) n)
      (deserialize api zlib use32 (some (mem ++ more)) n) := by
  rw [deserialize_inflated, deserialize_inflated]
  rcases inflated_unframed api use32 more zlib hf n with hout | ⟨hmem, hmore⟩
  · rw [hout]
    exact Or.inl rfl
  · rw [hmem, hmore]
    exact deserializeBuffer_stays mem more n

end

end Mym
