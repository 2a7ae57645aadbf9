import Mym.Frame
import Mym.Loading

/-!
# Which values are rejected

Of the conversions of the load loop two raise errors: that of a BIGINT column which stays integer, for
NULL, and that of a binary blob, for what is of the kind `dj0` and for a frame that announces more than
there is memory for (`convert_raised`).  Text is never rejected, for the error of `hex2char` is about
characters that are no byte.
-/

namespace Mym

/-! ### Numbers and text -/

theorem isNum_of_canConvert {t : FieldType} (h : canConvert t = true) : isNum t = true := by
  unfold canConvert at h
  simp only [Bool.and_eq_true] at h
  exact h.1.1.1.1

theorem isNum_of_isBigint {toDouble : Bool} {f : MysqlField} (h : isBigint toDouble f = true) :
    isNum f.type = true := by
  unfold isBigint at h
  rw [Bool.and_eq_true, beq_iff_eq] at h
  rw [h.1]
  rfl

theorem putCells_ne_raised (result : Cells) (pos : Nat) (bs : Bytes) (e : MexError) :
    putCells result pos bs ≠ .raised e := by
  induction bs generalizing result pos with
  | nil =>
    intro h
    cases h
  | cons b bs ih =>
    apply Outcome.bind_ne_raised (writeEntry_ne_raised _ _ _ e)
    intro r _
    exact ih r (pos + 1)

/-- The error of `hex2char` is for characters that are no byte. -/
theorem hex2charStep_ne_raised (val : Bytes) (s : Hex2Char) (e : MexError) :
    hex2charStep val s ≠ .raised e := by
  have hput : ∀ pos bs (f : Cells → Hex2Char),
      (putCells s.result pos bs >>= fun r => (.ok (f r) : Result Hex2Char)) ≠ .raised e :=
    fun pos bs f h => putCells_ne_raised _ _ _ e (Outcome.bind_ok_eq_raised.mp h)
  apply Outcome.bind_ne_raised (readByte_ne_raised _ _ e)
  intro c _
  dsimp only
  split
  · exact hput _ _ _
  split
  · exact hput _ _ _
  split
  · next h =>
    have hc := c.toNat_lt
    omega
  split
  · exact hput _ _ _
  split
  · exact hput _ _ _
  · intro h
    cases h

theorem hex2char_ne_raised (fuel : Nat) (val : Bytes) (charLength : Nat) (e : MexError) :
    hex2char fuel val charLength ≠ .raised e := by
  rw [hex2char]
  apply Outcome.bind_ne_raised
  · exact Outcome.loop_ne_raised (I := fun _ => True) (fun _ _ _ _ _ => trivial)
      (fun s _ _ => hex2charStep_ne_raised val s e) fuel trivial
  · intro s _ h
    exact writeEntry_ne_raised _ _ _ e (Outcome.bind_ok_eq_raised.mp h)

theorem cellsText_ne_raised (cells : Cells) (e : MexError) : cellsText cells ≠ .raised e := by
  unfold cellsText
  split
  · intro h
    cases h
  · exact readCStr_ne_raised _ _ e

theorem fetchedText_ne_raised (api : ResultApi) (s : Option FieldValue) (e : MexError) :
    fetchedText api s ≠ .raised e := by
  apply Outcome.bind_ne_raised (hex2char_ne_raised _ _ _ e)
  intro c _ h
  exact cellsText_ne_raised _ e (Outcome.bind_ok_eq_raised.mp h)

theorem fetchedBytes_ne_raised (s : Option FieldValue) (e : MexError) :
    fetchedBytes s ≠ .raised e := by
  unfold fetchedBytes
  dsimp only
  split
  · intro h
    cases h
  · intro h
    cases h

theorem field2num_ne_raised (api : ResultApi) (s : Option FieldValue) {t : FieldType}
    (ht : isNum t = true) (e : MexError) : field2num api s t ≠ .raised e := by
  cases s with
  | none =>
    intro h
    cases h
  | some v =>
    rw [field2num, if_pos ht]
    intro h
    exact readCStr_ne_raised _ _ e (Outcome.bind_ok_eq_raised.mp h)

theorem field2int_raised {api : ResultApi} {s : Option FieldValue} {f : MysqlField}
    (hf : isNum f.type = true) : (∃ e, field2int api s f = .raised e) ↔ s = none := by
  cases s with
  | none => exact ⟨fun _ => rfl, fun _ => ⟨_, rfl⟩⟩
  | some v =>
    constructor
    · intro ⟨e, h⟩
      rw [field2int, if_pos hf] at h
      exact absurd (Outcome.bind_ok_eq_raised.mp h) (readCStr_ne_raised _ _ e)
    · intro h
      cases h

/-! ### Blobs -/

/-- A blob that is of the kind `dj0`, inflated if it is compressed. -/
def HoldsDj0 (api : ResultApi) (s : Option FieldValue) : Prop :=
  ∃ v buf length, s = some v ∧
    inflate api.memory api.zlib api.use32 v.mem v.bytes.length = .ok (buf, length) ∧
    strcasecmpEq buf 0 dj0Id = .ok true

/-- A blob that announces more than there is memory for. -/
def TooLong (api : ResultApi) (s : Option FieldValue) : Prop :=
  ∃ v, s = some v ∧ FrameRefused api.memory api.use32 v.mem

theorem fetchedBlob_raised {api : ResultApi} {s : Option FieldValue} :
    (∃ e, fetchedBlob api s = .raised e) ↔ HoldsDj0 api s ∨ TooLong api s := by
  cases s with
  | none =>
    constructor
    · intro ⟨e, he⟩
      cases he
    · rintro (⟨v, _, _, hv, _⟩ | ⟨v, hv, _⟩)
      · cases hv
      · cases hv
  | some v =>
    have heq : fetchedBlob api (some v)
        = inflate api.memory api.zlib api.use32 v.mem v.bytes.length >>= fun r =>
          deserializeBuffer api.memory api.use32 v.mem r.1 r.2 := rfl
    rw [heq]
    constructor
    · intro ⟨e, he⟩
      cases hinflate : inflate api.memory api.zlib api.use32 v.mem v.bytes.length with
      | ok r =>
        rw [hinflate] at he
        exact Or.inl ⟨v, r.1, r.2, rfl, hinflate, (deserializeBuffer_raised.mp he).2⟩
      | raised e' => exact Or.inr ⟨v, rfl, (inflate_raised.mp hinflate).2⟩
      | _ =>
        rw [hinflate] at he
        cases he
    · rintro (⟨v', buf, length, hv, hinflate, hdj0⟩ | ⟨v', hv, hrefused⟩)
      · cases hv
        rw [hinflate]
        exact ⟨_, deserializeBuffer_raised.mpr ⟨rfl, hdj0⟩⟩
      · cases hv
        rw [inflate_raised.mpr ⟨rfl, hrefused⟩]
        exact ⟨_, rfl⟩

/-- The values that the conversion for a column raises an error for. -/
def Rejects (api : ResultApi) (toDouble : Bool) (f : MysqlField) (s : Option FieldValue) : Prop :=
  isBigint toDouble f = true ∧ s = none ∨
    f.type = .blob ∧ f.charsetnr = binaryCharset ∧ (HoldsDj0 api s ∨ TooLong api s)

theorem convert_raised {api : ResultApi} {toDouble : Bool} {f : MysqlField} {s : Option FieldValue} :
    (∃ e, convert api toDouble f s = .raised e) ↔ Rejects api toDouble f s := by
  unfold convert Rejects
  by_cases hbig : isBigint toDouble f = true
  · have hblob : f.type ≠ .blob := by
      intro h
      have hnum := isNum_of_isBigint hbig
      rw [h] at hnum
      cases hnum
    rw [if_pos hbig]
    simp only [Outcome.bind_ok_eq_raised, hbig, hblob, true_and, false_and, or_false]
    exact field2int_raised (isNum_of_isBigint hbig)
  rw [if_neg hbig]
  by_cases hnum : canConvert f.type = true
  · have hblob : f.type ≠ .blob := by
      intro h
      rw [h] at hnum
      cases hnum
    rw [if_pos hnum]
    simp only [Outcome.bind_ok_eq_raised, hbig, hblob, false_and, or_false, iff_false, not_exists,
      Bool.false_eq_true]
    exact field2num_ne_raised api s (isNum_of_canConvert hnum)
  rw [if_neg hnum]
  by_cases hblob : (f.type == .blob && f.charsetnr == binaryCharset) = true
  · rw [if_pos hblob]
    rw [Bool.and_eq_true, beq_iff_eq, beq_iff_eq] at hblob
    simp only [Outcome.bind_ok_eq_raised, hbig, hblob.1, hblob.2, true_and, false_and, false_or,
      Bool.false_eq_true]
    exact fetchedBlob_raised
  · rw [if_neg hblob]
    rw [Bool.and_eq_true, beq_iff_eq, beq_iff_eq] at hblob
    constructor
    · intro ⟨e, he⟩
      split at he
      · exact absurd (Outcome.bind_ok_eq_raised.mp he) (fetchedBytes_ne_raised s e)
      · exact absurd (Outcome.bind_ok_eq_raised.mp he) (fetchedText_ne_raised api s e)
    · intro hor
      rcases hor with ⟨h, -⟩ | ⟨h, h', -⟩
      · exact absurd h hbig
      · exact absurd ⟨h, h'⟩ hblob

end Mym
