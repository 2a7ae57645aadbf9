import Mathlib.Tactic.Linarith
import Mym.Lib.Decimal
import Mym.Lib.Ieee

/-!
# The number a decimal text stands for

`RoundsTo s q r` says that `r` is the multiple of `1 / s` that is nearest to `q`, and of two the even one.
There is one such `r` (`RoundsTo.unique`), a greater `q` has no smaller one (`RoundsTo.mono`), and a
multiple of `1 / s` is its own (`roundsTo_grid`).

`decimalValue` reads a sign, digits, and digits behind a point.  A numeral stands for its integer
(`decimalValue_numeral`), and a text of `fixed` for the number it was made from, rounded to its
decimals (`decimalValue_fixed`).
-/

namespace Mym

/-! ### Rounding to a grid -/

/-- The multiple of `1 / s` nearest to `q`, and of two the even one. -/
def RoundsTo (s q r : ℚ) : Prop :=
  ∃ k : Int, r = k / s ∧ |k - q * s| ≤ 1 / 2 ∧ (|k - q * s| = 1 / 2 → k % 2 = 0)

section

variable {s q q' r r' : ℚ}

theorem RoundsTo.mono (hs : 0 < s) (h : RoundsTo s q r) (h' : RoundsTo s q' r') (hq : q ≤ q') :
    r ≤ r' := by
  obtain ⟨k, rfl, hnear, heven⟩ := h
  obtain ⟨k', rfl, hnear', heven'⟩ := h'
  have hscaled : q * s ≤ q' * s := mul_le_mul_of_nonneg_right hq hs.le
  have hlow := abs_le.mp hnear
  have hlow' := abs_le.mp hnear'
  have hk : k ≤ k' := by
    by_contra hlt
    have hstep : k' + 1 ≤ k := by omega
    have hstepq : (k' : ℚ) + 1 ≤ k := by exact_mod_cast hstep
    -- both lie half a step away, and neighbours are not both even
    have htie : |k - q * s| = 1 / 2 := by
      rw [abs_of_nonneg (by linarith)]
      linarith
    have htie' : |k' - q' * s| = 1 / 2 := by
      rw [abs_of_nonpos (by linarith)]
      linarith
    have hnext : k = k' + 1 := by
      have hle : (k : ℚ) ≤ k' + 1 := by linarith
      have hle' : k ≤ k' + 1 := by exact_mod_cast hle
      omega
    have hk := heven htie
    have hk' := heven' htie'
    omega
  exact div_le_div_of_nonneg_right (by exact_mod_cast hk) hs.le

theorem RoundsTo.unique (hs : 0 < s) (h : RoundsTo s q r) (h' : RoundsTo s q r') : r = r' :=
  le_antisymm (h.mono hs h' le_rfl) (h'.mono hs h le_rfl)

theorem roundsTo_grid (hs : 0 < s) (k : Int) : RoundsTo s (k / s) (k / s) := by
  refine ⟨k, rfl, ?_⟩
  rw [div_mul_cancel₀ _ hs.ne', sub_self, abs_zero]
  exact ⟨by norm_num, fun h => absurd h (by norm_num)⟩

theorem RoundsTo.neg (h : RoundsTo s q r) : RoundsTo s (-q) (-r) := by
  obtain ⟨k, rfl, hnear, heven⟩ := h
  have habs : |((-k : Int) : ℚ) - -q * s| = |k - q * s| := by
    rw [← abs_neg]
    congr 1
    push_cast
    ring
  refine ⟨-k, ?_, ?_, fun htie => ?_⟩
  · rw [Int.cast_neg, neg_div]
  · rw [habs]
    exact hnear
  · have hk := heven (habs ▸ htie)
    omega

end

theorem roundsTo_roundEven (s q : ℚ) : RoundsTo s q (roundEven (q * s) / s) := by
  have hlow := Int.floor_le (q * s)
  have hhigh := Int.lt_floor_add_one (q * s)
  refine ⟨roundEven (q * s), rfl, ?_⟩
  unfold roundEven
  split
  · next hdown =>
    rw [abs_of_nonpos (by linarith)]
    rcases hdown with hless | ⟨htie, heven⟩
    · exact ⟨by linarith, fun h => by linarith⟩
    · exact ⟨by linarith, fun _ => heven⟩
  · next hup =>
    have hhalf : 1 / 2 ≤ q * s - ⌊q * s⌋ := not_lt.mp fun h => hup (Or.inl h)
    rw [Int.cast_add, Int.cast_one, abs_of_nonneg (by linarith)]
    refine ⟨by linarith, fun h => ?_⟩
    have hodd : ⌊q * s⌋ % 2 ≠ 0 := fun h0 => hup (Or.inr ⟨by linarith, h0⟩)
    omega

theorem roundEven_nonneg {q : ℚ} (h : 0 ≤ q) : 0 ≤ roundEven q := by
  have hfloor := Int.floor_nonneg.mpr h
  unfold roundEven
  split
  · exact hfloor
  · omega

/-! ### Reading a text -/

/-- Digits, and digits behind a point. -/
def unsignedValue (bs : Bytes) : Option ℚ :=
  let whole := bs.takeWhile isDigit
  if whole = [] then none
  else match bs.dropWhile isDigit with
    | [] => some (ofDigits whole)
    | c :: decimals =>
      if c = decimalPoint ∧ decimals.all isDigit = true then
        some (ofDigits whole + ofDigits decimals / 10 ^ decimals.length)
      else none

/-- The number a text stands for, if it is a number. -/
def decimalValue : Bytes → Option ℚ
  | [] => none
  | c :: cs =>
    if c = minusSign then (unsignedValue cs).map fun q => -q else unsignedValue (c :: cs)

theorem decimalValue_signed (neg : Bool) {c : UInt8} {cs : Bytes} (hc : isDigit c = true) {q : ℚ}
    (h : unsignedValue (c :: cs) = some q) :
    decimalValue (signBytes neg ++ c :: cs) = some (Ieee.signed neg q) := by
  cases neg with
  | true =>
    have hvalue : decimalValue (minusSign :: c :: cs) = (unsignedValue (c :: cs)).map fun q => -q :=
      by rw [decimalValue, if_pos rfl]
    rw [h] at hvalue
    exact hvalue
  | false =>
    have hminus : c ≠ minusSign := by
      rintro rfl
      cases hc
    have hvalue : decimalValue (c :: cs) = unsignedValue (c :: cs) := if_neg hminus
    exact hvalue.trans h

theorem digits_append_eq (n : Nat) (rest : Bytes) :
    ∃ c cs, digits n ++ rest = c :: cs ∧ isDigit c = true := by
  cases hd : digits n with
  | nil => exact absurd hd (digits_ne_nil n)
  | cons c cs =>
    exact ⟨c, cs ++ rest, rfl, isDigit_of_mem_digits (n := n) (by rw [hd]; exact List.mem_cons_self)⟩

theorem unsignedValue_digits (n : Nat) : unsignedValue (digits n) = some (n : ℚ) := by
  have hdrop : (digits n).dropWhile isDigit = [] :=
    List.dropWhile_eq_nil_iff.mpr fun _ hb => isDigit_of_mem_digits hb
  rw [unsignedValue, takeWhile_digits, if_neg (digits_ne_nil n), hdrop, ofDigits_digits]

theorem decimalValue_numeral (n : Int) : decimalValue (numeral n) = some (n : ℚ) := by
  obtain ⟨c, cs, hcs, hc⟩ := digits_append_eq n.natAbs []
  have hvalue := unsignedValue_digits n.natAbs
  rw [List.append_nil] at hcs
  rw [hcs] at hvalue
  rw [numeral, hcs, decimalValue_signed _ hc hvalue]
  exact Ieee.value_ofInt n

/-! ### A fixed number of decimals -/

theorem ofDigits_replicate_zero (k : Nat) (bs : Bytes) :
    ofDigits (List.replicate k 48 ++ bs) = ofDigits bs := by
  induction k with
  | zero => rfl
  | succ k ih => exact ih

theorem ofDigits_paddedDigits (p n : Nat) : ofDigits (paddedDigits p n) = n := by
  rw [paddedDigits, ofDigits_replicate_zero, ofDigits_digits]

theorem isDigit_of_mem_paddedDigits {p n : Nat} {b : UInt8} (h : b ∈ paddedDigits p n) :
    isDigit b = true := by
  rcases List.mem_append.mp h with h | h
  · rw [(List.mem_replicate.mp h).2]
    rfl
  · exact isDigit_of_mem_digits h

theorem unsignedValue_decimals {p n : Nat} (hp : 0 < p) (m : Nat) (hn : n < 10 ^ p) :
    unsignedValue (digits m ++ decimalPoint :: paddedDigits p n) = some (m + n / 10 ^ p : ℚ) := by
  have htake : (digits m ++ decimalPoint :: paddedDigits p n).takeWhile isDigit = digits m := by
    rw [List.takeWhile_append_of_pos fun _ hb => isDigit_of_mem_digits hb,
      List.takeWhile_cons_of_neg (by decide), List.append_nil]
  have hdrop : (digits m ++ decimalPoint :: paddedDigits p n).dropWhile isDigit
      = decimalPoint :: paddedDigits p n := by
    rw [List.dropWhile_append_of_pos fun _ hb => isDigit_of_mem_digits hb,
      List.dropWhile_cons_of_neg (by decide)]
  have hall : (paddedDigits p n).all isDigit = true :=
    List.all_eq_true.mpr fun _ hb => isDigit_of_mem_paddedDigits hb
  rw [unsignedValue, htake, if_neg (digits_ne_nil m), hdrop]
  dsimp only
  rw [if_pos ⟨rfl, hall⟩, ofDigits_digits, ofDigits_paddedDigits, length_paddedDigits hp hn]

/-- **What is printed with `p` decimals is the number rounded to `p` decimals.** -/
theorem decimalValue_fixed {p : Nat} (hp : 0 < p) (neg : Bool) {mag : ℚ} (hmag : 0 ≤ mag) :
    ∃ r, decimalValue (fixed p neg mag) = some r ∧ RoundsTo (10 ^ p) (Ieee.signed neg mag) r := by
  have hs : (0 : ℚ) < 10 ^ p := by positivity
  have hround : 0 ≤ roundEven (mag * 10 ^ p) := roundEven_nonneg (by positivity)
  obtain ⟨n, hn⟩ := Int.eq_ofNat_of_zero_le hround
  obtain ⟨c, cs, hcs, hc⟩ := digits_append_eq (n / 10 ^ p) (decimalPoint :: paddedDigits p (n % 10 ^ p))
  have hvalue := unsignedValue_decimals hp (n / 10 ^ p) (Nat.mod_lt n (show 0 < 10 ^ p by positivity))
  have hsum : ((n / 10 ^ p : Nat) + (n % 10 ^ p : Nat) / 10 ^ p : ℚ) = (n : Int) / 10 ^ p := by
    have hdiv : ((10 ^ p * (n / 10 ^ p) + n % 10 ^ p : Nat) : ℚ) = n := by
      rw [Nat.div_add_mod]
    rw [Int.cast_natCast, eq_div_iff hs.ne', ← hdiv]
    push_cast
    field_simp
  rw [hsum, hcs] at hvalue
  have hrounds := roundsTo_roundEven (10 ^ p) mag
  rw [hn] at hrounds
  refine ⟨Ieee.signed neg ((n : Int) / 10 ^ p), ?_, ?_⟩
  · rw [fixed, hn, Int.natAbs_natCast, List.append_assoc, hcs]
    exact decimalValue_signed neg hc hvalue
  · cases neg with
    | false => exact hrounds
    | true => exact hrounds.neg

end Mym
