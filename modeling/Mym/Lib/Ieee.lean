import Mathlib.Algebra.Order.Floor.Ring
import Mathlib.Data.Rat.Floor

/-!
# Binary floating-point numbers

A binary floating-point number as what it stands for: not a number, an infinity, or a sign and an
exact magnitude (a zero has a sign too).  `ofBits` reads the interchange format with any widths of
exponent and fraction; `floor` and `trunc` are exact.
-/

namespace Mym

inductive Ieee where
  | nan (neg : Bool)
  | inf (neg : Bool)
  | finite (neg : Bool) (mag : ℚ)
  deriving DecidableEq

namespace Ieee

/-- The number with this sign and magnitude. -/
def signed (neg : Bool) (mag : ℚ) : ℚ := if neg then -mag else mag

/-- The number, if it is one. -/
def value : Ieee → Option ℚ
  | nan _ => none
  | inf _ => none
  | finite neg mag => some (signed neg mag)

/-- The interchange format with `ew` bits of exponent and `fw` of fraction. -/
def ofBits (ew fw bits : Nat) : Ieee :=
  let neg := decide (bits / 2 ^ (ew + fw) % 2 = 1)
  let exponent := bits / 2 ^ fw % 2 ^ ew
  let fraction := bits % 2 ^ fw
  -- the weight of the last bit of a number with exponent 1 is `1 / 2 ^ scale`
  let scale := 2 ^ (ew - 1) - 2 + fw
  if exponent = 2 ^ ew - 1 then if fraction = 0 then inf neg else nan neg
  else if exponent = 0 then finite neg (fraction / 2 ^ scale)
  else finite neg ((2 ^ fw + fraction : Nat) * 2 ^ (exponent - 1) / 2 ^ scale)

def ofInt (n : Int) : Ieee := finite (decide (n < 0)) n.natAbs

/-- `floor` -/
def floor : Ieee → Ieee
  | nan neg => nan neg
  | inf neg => inf neg
  | finite neg mag => finite neg (if neg then ⌈mag⌉ else ⌊mag⌋)

/-- The integer part, towards zero. -/
def trunc : Ieee → Option Int
  | nan _ => none
  | inf _ => none
  | finite neg mag => some (if neg then -⌊mag⌋ else ⌊mag⌋)

theorem value_ofInt (n : Int) : (ofInt n).value = some (n : ℚ) := by
  rw [ofInt, value, signed, Nat.cast_natAbs]
  by_cases h : n < 0
  · rw [decide_eq_true h, if_pos rfl, abs_of_neg h, Int.cast_neg, neg_neg]
  · rw [decide_eq_false h, if_neg (by decide), abs_of_nonneg (by omega)]

/-- Rounding down and cutting off comes to rounding down. -/
theorem trunc_floor {x : Ieee} {q : ℚ} (h : x.value = some q) : x.floor.trunc = some ⌊q⌋ := by
  cases x with
  | nan neg => cases h
  | inf neg => cases h
  | finite neg mag =>
    cases h
    cases neg with
    | false => simp [floor, trunc, signed]
    | true => simp [floor, trunc, signed, Int.floor_neg]

/-- Cutting off leaves an integer as it is. -/
theorem trunc_ofInt (n : Int) : (ofInt n).trunc = some n := by
  rw [ofInt, trunc, Int.floor_natCast]
  by_cases h : n < 0
  · rw [decide_eq_true h, if_pos rfl]
    congr 1
    omega
  · rw [decide_eq_false h, if_neg (by decide)]
    congr 1
    omega

/-- A magnitude is not negative and lies below the first power of two that is too large. -/
theorem ofBits_range {ew fw bits : Nat} (hew : 0 < ew) {neg : Bool} {mag : ℚ}
    (h : ofBits ew fw bits = finite neg mag) : 0 ≤ mag ∧ mag < 2 ^ 2 ^ (ew - 1) := by
  have hfraction : bits % 2 ^ fw < 2 ^ fw := Nat.mod_lt _ (by positivity)
  have hexponent : bits / 2 ^ fw % 2 ^ ew < 2 ^ ew := Nat.mod_lt _ (by positivity)
  have hhalf : 2 ^ ew = 2 * 2 ^ (ew - 1) := by
    rw [← pow_succ', Nat.sub_add_cancel hew]
  have hone : 1 ≤ 2 ^ (ew - 1) := Nat.one_le_two_pow
  unfold ofBits at h
  dsimp only at h
  generalize bits % 2 ^ fw = fraction at h hfraction
  generalize bits / 2 ^ fw % 2 ^ ew = exponent at h hexponent
  split at h
  · split at h
    · cases h
    · cases h
  next hspecial =>
  split at h
  · cases h
    refine ⟨by positivity, ?_⟩
    have hsmall : (fraction : ℚ) < 2 ^ (2 ^ (ew - 1) + (2 ^ (ew - 1) - 2 + fw)) := by
      exact_mod_cast Nat.lt_of_lt_of_le hfraction (Nat.pow_le_pow_right (by decide) (by omega))
    rw [div_lt_iff₀ (by positivity), ← pow_add]
    exact hsmall
  next hzero =>
  cases h
  refine ⟨by positivity, ?_⟩
  have hsum : 2 ^ fw + fraction < 2 ^ (fw + 1) := by
    rw [pow_succ]
    omega
  have hlarge : (2 ^ fw + fraction) * 2 ^ (exponent - 1)
      < 2 ^ (2 ^ (ew - 1) + (2 ^ (ew - 1) - 2 + fw)) := by
    calc (2 ^ fw + fraction) * 2 ^ (exponent - 1)
        < 2 ^ (fw + 1) * 2 ^ (exponent - 1) := Nat.mul_lt_mul_of_pos_right hsum (by positivity)
      _ = 2 ^ (fw + 1 + (exponent - 1)) := (pow_add 2 _ _).symm
      _ ≤ 2 ^ (2 ^ (ew - 1) + (2 ^ (ew - 1) - 2 + fw)) :=
        Nat.pow_le_pow_right (by decide) (by omega)
  rw [div_lt_iff₀ (by positivity), ← pow_add]
  exact_mod_cast hlarge

/-- A double has at most 309 digits in front of the point. -/
theorem ofBits_add_one_lt {ew fw bits : Nat} (hew : 0 < ew) (hle : ew ≤ 11) {neg : Bool} {mag : ℚ}
    (h : ofBits ew fw bits = finite neg mag) : mag + 1 < 10 ^ 309 := by
  have hhigh : mag < 2 ^ 1024 := by
    have hexp : 2 ^ (ew - 1) ≤ 2 ^ 10 := Nat.pow_le_pow_right (by decide) (by omega)
    exact (ofBits_range hew h).2.trans_le (pow_le_pow_right₀ one_le_two hexp)
  have hpow : (2 : ℚ) ^ 1024 + 1 < 10 ^ 309 := by
    rw [show 1024 = 8 * 128 from rfl, pow_mul, show 309 = 1 + 77 * 4 from rfl, pow_add, pow_mul]
    norm_num
  exact (add_lt_add_of_lt_of_le hhigh le_rfl).trans hpow

end Ieee

end Mym
