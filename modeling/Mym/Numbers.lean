import Mym.Buffers
import Mym.Contents
import Mym.Lib.DecimalValue

/-!
# The number in the text

What an S placeholder stores for a scalar is read as a number again.  `Written` says which number it is:
the floor for the integer classes and where the placeholder asks for an integer, and else the number
rounded to the decimals that the placeholder asks for.  A greater number is never written as a smaller
one (`numbers_in_order`), whatever the classes of the two.
-/

namespace Mym

/-- The number that is written for `q`. -/
def Written (rpArg : CStr) (isFloat : Bool) (q r : ℚ) : Prop :=
  if isFloat = false ∨ rpArg.1.head? = some phInteger then r = ⌊q⌋
  else ∃ n, atoi rpArg = .ok n ∧ RoundsTo (10 ^ precision n) q r

/-- An integer class holds an integer. -/
def Integral (isFloat : Bool) (q : ℚ) : Prop := isFloat = false → ∃ m : Int, q = m

section

variable {rpArg : CStr} {isFloat isFloat' : Bool} {q q' r r' : ℚ}

theorem Integral.written (hq : Integral isFloat q) (hfloat : isFloat = false)
    (h : Written rpArg isFloat q r) : ∃ m : Int, q = m ∧ r = m := by
  obtain ⟨m, rfl⟩ := hq hfloat
  rw [Written, if_pos (Or.inl hfloat), Int.floor_intCast] at h
  exact ⟨m, rfl, h⟩

theorem roundsTo_int (p : Nat) (m : Int) : RoundsTo (10 ^ p) m m := by
  have hpos : (0 : ℚ) < 10 ^ p := by positivity
  have hm : ((m * 10 ^ p : Int) : ℚ) / 10 ^ p = m := by
    rw [Int.cast_mul, Int.cast_pow, Int.cast_ofNat, mul_div_cancel_right₀ _ hpos.ne']
  exact hm ▸ roundsTo_grid hpos (m * 10 ^ p)

/-- An integer is on the grid as well. -/
theorem Written.rounds (hi : rpArg.1.head? ≠ some phInteger) (hq : Integral isFloat q)
    (h : Written rpArg isFloat q r) {n : Int} (hn : atoi rpArg = .ok n) :
    RoundsTo (10 ^ precision n) q r := by
  cases hfloat : isFloat with
  | false =>
    obtain ⟨m, rfl, rfl⟩ := hq.written hfloat h
    exact roundsTo_int _ m
  | true =>
    rw [Written, if_neg (by simp [hfloat, hi])] at h
    obtain ⟨n', hn', h⟩ := h
    cases hn.symm.trans hn'
    exact h

theorem Written.exact (hi : rpArg.1.head? ≠ some phInteger) (hq : Integral isFloat q)
    (h : Written rpArg isFloat q r) (hn : ∀ n, atoi rpArg ≠ .ok n) : r = q := by
  cases hfloat : isFloat with
  | false =>
    obtain ⟨m, rfl, rfl⟩ := hq.written hfloat h
    rfl
  | true =>
    rw [Written, if_neg (by simp [hfloat, hi])] at h
    obtain ⟨n, hn', -⟩ := h
    exact absurd hn' (hn n)

/-- A greater number is not written as a smaller one, whether it is of an integer class or a float. -/
theorem Written.mono (hq : Integral isFloat q) (hq' : Integral isFloat' q')
    (h : Written rpArg isFloat q r) (h' : Written rpArg isFloat' q' r') (hle : q ≤ q') : r ≤ r' := by
  by_cases hi : rpArg.1.head? = some phInteger
  · rw [Written, if_pos (Or.inr hi)] at h h'
    rw [h, h']
    exact_mod_cast Int.floor_mono hle
  · by_cases hn : ∃ n, atoi rpArg = .ok n
    · obtain ⟨n, hn⟩ := hn
      exact (h.rounds hi hq hn).mono (by positivity) (h'.rounds hi hq' hn) hle
    · have hnone : ∀ n, atoi rpArg ≠ .ok n := fun n h => hn ⟨n, h⟩
      rw [h.exact hi hq hnone, h'.exact hi hq' hnone]
      exact hle

end

section

variable {zlib : Zlib} {ratioTest : (plen len : Nat) → Bool} {fuel : Nat} {lone : Nat → Nat} {junk : UInt8}
  {file : MxArray → Result Serial} {rpArg : CStr} {s : Bytes}

theorem storedText_bind {α : Type} {x : Result α} {f : α → Result StringText}
    (h : storedText junk (x >>= f) = .ok s) : ∃ a, x = .ok a ∧ storedText junk (f a) = .ok s := by
  rw [storedText, Outcome.bind_assoc] at h
  exact Outcome.bind_eq_ok h

theorem storedText_sprintf_ok {text : Bytes} (h : storedText junk (sprintf text) = .ok s) : s = text := by
  rw [storedText_sprintf] at h
  split at h
  · exact (Outcome.ok.inj h).symm
  · cases h

/-- What is stored has been printed with `%d` or with `%.*f`. -/
theorem storedText_printScalar {x : Ieee} {isFloat : Bool}
    (h : storedText junk (printScalar rpArg x (!isFloat)) = .ok s) :
    ((isFloat = false ∨ rpArg.1.head? = some phInteger) ∧
      ∃ n, castInt (if rpArg.1.head? == some phInteger then x.floor else x) = .ok n ∧ s = numeral n) ∨
    ¬(isFloat = false ∨ rpArg.1.head? = some phInteger) ∧
      ∃ n, atoi rpArg = .ok n ∧ s = floatText (precision n) x := by
  have hconv : (!isFloat || rpArg.1.head? == some phInteger) = true ↔
      isFloat = false ∨ rpArg.1.head? = some phInteger := by
    rw [Bool.or_eq_true, Bool.not_eq_true', beq_iff_eq]
  rw [printScalar] at h
  by_cases hint : isFloat = false ∨ rpArg.1.head? = some phInteger
  · rw [if_pos (hconv.mpr hint)] at h
    obtain ⟨n, hn, h⟩ := storedText_bind h
    exact Or.inl ⟨hint, n, hn, storedText_sprintf_ok h⟩
  · rw [if_neg (mt hconv.mp hint)] at h
    obtain ⟨n, hn, h⟩ := storedText_bind h
    rw [if_neg fun hi => hint (Or.inr (beq_iff_eq.mp hi))] at h
    exact Or.inr ⟨hint, n, hn, storedText_sprintf_ok h⟩

theorem castInt_trunc {x : Ieee} {n : Int} (h : castInt x = .ok n) : x.trunc = some n := by
  unfold castInt at h
  split at h
  · cases h
  · next m hm =>
    split at h
    · cases h
      exact hm
    · cases h

theorem decimalValue_special (neg : Bool) :
    decimalValue (signBytes neg ++ nanText) = none ∧ decimalValue (signBytes neg ++ infText) = none := by
  cases neg with
  | false => exact ⟨rfl, rfl⟩
  | true => exact ⟨rfl, rfl⟩

theorem trunc_none {x : Ieee} (h : x.value = none) : x.trunc = none ∧ x.floor.trunc = none := by
  cases x with
  | finite neg mag => cases h
  | nan neg => exact ⟨rfl, rfl⟩
  | inf neg => exact ⟨rfl, rfl⟩

theorem RealScalar.integral {x : RealScalar} {q : ℚ} (hq : x.number.value = some q) :
    Integral x.cls.isFloat q := by
  intro hfloat
  obtain ⟨n, hn⟩ := x.number_of_not_float hfloat
  rw [hn, Ieee.value_ofInt] at hq
  exact ⟨n, (Option.some.inj hq).symm⟩

/-- The text of a scalar is that of the number to be written. -/
def TextOf (rpArg : CStr) (x : RealScalar) (s : Bytes) : Prop :=
  match x.number.value with
  | some q => ∃ r, decimalValue s = some r ∧ Written rpArg x.cls.isFloat q r
  | none => decimalValue s = none

theorem textOf_int {x : RealScalar} {n : Int}
    (hint : x.cls.isFloat = false ∨ rpArg.1.head? = some phInteger)
    (hn : castInt (if rpArg.1.head? == some phInteger then x.number.floor else x.number) = .ok n) :
    TextOf rpArg x (numeral n) := by
  have htrunc := castInt_trunc hn
  unfold TextOf
  cases hq : x.number.value with
  | some q =>
    cases htrunc.symm.trans (x.trunc_written hq hint)
    refine ⟨_, decimalValue_numeral _, ?_⟩
    rw [Written, if_pos hint]
  | none =>
    obtain ⟨hnumber, hfloor⟩ := trunc_none hq
    split at htrunc
    · cases hfloor.symm.trans htrunc
    · cases hnumber.symm.trans htrunc

theorem textOf_float {x : RealScalar} {n : Int}
    (hfloat : ¬(x.cls.isFloat = false ∨ rpArg.1.head? = some phInteger)) (hn : atoi rpArg = .ok n) :
    TextOf rpArg x (floatText (precision n) x.number) := by
  unfold TextOf
  cases hx : x.number with
  | nan neg => exact (decimalValue_special neg).1
  | inf neg => exact (decimalValue_special neg).2
  | finite neg mag =>
    have hclass : x.cls.isFloat = true := Bool.not_eq_false _ ▸ fun h => hfloat (Or.inl h)
    obtain ⟨r, hr, hround⟩ := decimalValue_fixed (precision_pos n) neg (x.mag_range hclass hx).1
    refine ⟨r, hr, ?_⟩
    rw [Written, if_neg hfloat]
    exact ⟨n, hn, hround⟩

theorem stored_number {body : Bytes} (hbody : Selects phString body) {x : RealScalar}
    (hs : stored zlib ratioTest (stringOrFile fuel lone junk file) body (.full x.array) = .ok s) :
    TextOf (textOf body.tail) x s := by
  rw [stored_string hbody, x.serializeString_scalar] at hs
  split at hs
  · rcases storedText_printScalar hs with ⟨hint, n, hn, rfl⟩ | ⟨hfloat, n, hn, rfl⟩
    · exact textOf_int hint hn
    · exact textOf_float hfloat hn
  · cases hs

/-- **Numbers keep their order.**  Whatever the classes of two scalars, what the same S placeholder stores
for them are texts of the numbers to be written, and no greater number has the text of a smaller one. -/
theorem numbers_in_order {body : Bytes} (hbody : Selects phString body) {x y : RealScalar} {t : Bytes}
    (hs : stored zlib ratioTest (stringOrFile fuel lone junk file) body (.full x.array) = .ok s)
    (ht : stored zlib ratioTest (stringOrFile fuel lone junk file) body (.full y.array) = .ok t) :
    TextOf (textOf body.tail) x s ∧ TextOf (textOf body.tail) y t ∧
      ∀ q q', x.number.value = some q → y.number.value = some q' → q ≤ q' →
        ∃ r r', decimalValue s = some r ∧ decimalValue t = some r' ∧ r ≤ r' := by
  have hx := stored_number hbody hs
  have hy := stored_number hbody ht
  refine ⟨hx, hy, fun q q' hq hq' hle => ?_⟩
  rw [TextOf, hq] at hx
  rw [TextOf, hq'] at hy
  obtain ⟨r, hr, hwritten⟩ := hx
  obtain ⟨r', hr', hwritten'⟩ := hy
  exact ⟨r, r', hr, hr', hwritten.mono (RealScalar.integral hq) (RealScalar.integral hq') hwritten' hle⟩

end

/-- `int8(-3)` and `0`, each in `{S3}`. -/
theorem numbers_in_order_zero : ∃ s t,
    stored runZlib savesTenth (stringOrFile 3 (fun _ => 0xFFFD) 0 fun _ => .undefined) [83, 51]
        (.full minusThree.array) = .ok s ∧
      stored runZlib savesTenth (stringOrFile 3 (fun _ => 0xFFFD) 0 fun _ => .undefined) [83, 51]
        (.full zeroDouble.array) = .ok t ∧
      TextOf (textOf [51]) minusThree s ∧ TextOf (textOf [51]) zeroDouble t ∧
      ∃ r r', decimalValue s = some r ∧ decimalValue t = some r' ∧ r ≤ r' := by
  have hbody : Selects phString [83, 51] := ⟨[51], Or.inl rfl⟩
  have hprints : PrintsFloor [83, 51] minusThree (-3) :=
    ⟨hbody, rfl, Or.inl rfl, ⟨_, value_minusThree, (Int.floor_intCast _).symm⟩, by decide⟩
  have hs : stored runZlib savesTenth (stringOrFile 3 (fun _ => 0xFFFD) 0 fun _ => .undefined)
      [83, 51] (.full minusThree.array) = .ok (numeral (-3)) := stored_integer hprints
  have hshort : (fixed 3 false 0).length < 512 := by
    have hle := (length_fixed_le_iff (show 0 < 3 by decide) Nat.one_pos false (le_refl (0 : ℚ))).mpr
      (by norm_num)
    exact Nat.lt_of_le_of_lt hle (by decide)
  have ht : stored runZlib savesTenth (stringOrFile 3 (fun _ => 0xFFFD) 0 fun _ => .undefined)
      [83, 51] (.full zeroDouble.array) = .ok (fixed 3 false 0) := by
    rw [stored_string hbody, serializeString_decimals (n := 3) rfl (by decide) rfl, number_zeroDouble]
    show storedText 0 (sprintf (fixed 3 false 0)) = _
    rw [storedText_sprintf, if_pos hshort]
  obtain ⟨hx, hy, horder⟩ := numbers_in_order hbody hs ht
  have hzero : zeroDouble.number.value = some 0 := by
    rw [number_zeroDouble]
    rfl
  exact ⟨_, _, hs, ht, hx, hy, horder _ _ value_minusThree hzero (by norm_num)⟩

end Mym
