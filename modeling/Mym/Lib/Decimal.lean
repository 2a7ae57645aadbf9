import Mathlib.Data.Rat.Floor
import Mathlib.Data.List.TakeWhile
import Mym.Lib.Memory

/-!
# Decimal text

`numeral n` is the decimal numeral of an integer and `parseInt` reads one (`parseInt_numeral`).
`fixed p neg mag` is a magnitude with `p` digits after the point, correctly rounded and halves to even,
as `%.*f` prints it.  The digits after the point can be counted (`fixed_injective`), and a numeral has
no point (`numeral_ne_fixed`).
-/

namespace Mym

/-- `0` to `9` -/
def isDigit (b : UInt8) : Bool := 48 ≤ b && b ≤ 57

def digits (n : Nat) : Bytes := (Nat.toDigits 10 n).map fun c => UInt8.ofNat c.toNat

def ofDigits (bs : Bytes) : Nat := bs.foldl (fun n b => 10 * n + (b.toNat - 48)) 0

/-- `-` -/
def minusSign : UInt8 := 45
/-- `+` -/
def plusSign : UInt8 := 43
/-- `.` -/
def decimalPoint : UInt8 := 46

def signBytes (neg : Bool) : Bytes := if neg then [minusSign] else []

def numeral (n : Int) : Bytes := signBytes (decide (n < 0)) ++ digits n.natAbs

/-- The number a text begins with: a sign, or none, and digits. -/
def parseInt : Bytes → Int
  | [] => 0
  | c :: cs =>
    if c = minusSign then -(ofDigits (cs.takeWhile isDigit) : Int)
    else if c = plusSign then ofDigits (cs.takeWhile isDigit)
    else ofDigits ((c :: cs).takeWhile isDigit)

/-! ### Digits -/

theorem mem_toDigits {n : Nat} {c : Char} (h : c ∈ Nat.toDigits 10 n) :
    48 ≤ c.toNat ∧ c.toNat ≤ 57 := by
  have hdigit := Nat.isDigit_of_mem_toDigits (by decide) (by decide) h
  rw [Char.isDigit_iff_toNat] at hdigit
  exact hdigit

theorem digits_ne_nil (n : Nat) : digits n ≠ [] := by
  rw [digits, Ne, List.map_eq_nil_iff]
  exact Nat.toDigits_ne_nil

theorem isDigit_of_mem_digits {n : Nat} {b : UInt8} (h : b ∈ digits n) : isDigit b = true := by
  obtain ⟨c, hc, rfl⟩ := List.mem_map.mp h
  have hrange := mem_toDigits hc
  have hlow : 48 ≤ UInt8.ofNat c.toNat ↔ 48 ≤ (UInt8.ofNat c.toNat).toNat := Iff.rfl
  have hhigh : UInt8.ofNat c.toNat ≤ 57 ↔ (UInt8.ofNat c.toNat).toNat ≤ 57 := Iff.rfl
  rw [isDigit, Bool.and_eq_true, decide_eq_true_iff, decide_eq_true_iff, hlow, hhigh,
    UInt8.toNat_ofNat']
  omega

theorem ofDigits_digits (n : Nat) : ofDigits (digits n) = n := by
  have hfold : ∀ (cs : List Char) (k : Nat), (∀ c ∈ cs, 48 ≤ c.toNat ∧ c.toNat ≤ 57) →
      (cs.map fun c => UInt8.ofNat c.toNat).foldl (fun n b => 10 * n + (b.toNat - 48)) k
        = Nat.ofDigitChars 10 cs k := by
    intro cs
    induction cs with
    | nil => intro k _; rw [Nat.ofDigitChars_nil]; rfl
    | cons c cs ih =>
      intro k hcs
      rw [List.forall_mem_cons] at hcs
      have hc : (UInt8.ofNat c.toNat).toNat = c.toNat := by
        rw [UInt8.toNat_ofNat']
        omega
      rw [List.map_cons, List.foldl_cons, ih _ hcs.2, Nat.ofDigitChars_cons, hc]
      rfl
  rw [ofDigits, digits, hfold _ 0 fun c hc => mem_toDigits hc, Nat.ofDigitChars_ten_toDigits]

/-- A text of digits alone is read whole. -/
theorem takeWhile_digits (n : Nat) : (digits n).takeWhile isDigit = digits n :=
  List.takeWhile_eq_self_iff.mpr fun _ hb => isDigit_of_mem_digits hb

theorem length_digits_le_iff {n k : Nat} (hk : 0 < k) : (digits n).length ≤ k ↔ n < 10 ^ k := by
  rw [digits, List.length_map]
  exact Nat.length_toDigits_le_iff (by decide) hk

theorem length_digits_le {n k : Nat} (hk : 0 < k) (h : n < 10 ^ k) : (digits n).length ≤ k :=
  (length_digits_le_iff hk).mpr h

theorem length_digits_pos (n : Nat) : 0 < (digits n).length :=
  List.length_pos_iff.mpr (digits_ne_nil n)

/-- **A numeral is read back.** -/
theorem parseInt_numeral (n : Int) : parseInt (numeral n) = n := by
  by_cases hneg : n < 0
  · rw [numeral, decide_eq_true hneg]
    show -(ofDigits ((digits n.natAbs).takeWhile isDigit) : Int) = n
    rw [takeWhile_digits, ofDigits_digits]
    omega
  · rw [numeral, decide_eq_false hneg]
    show parseInt (digits n.natAbs) = n
    cases hd : digits n.natAbs with
    | nil => exact absurd hd (digits_ne_nil _)
    | cons c cs =>
      have hc : isDigit c = true := isDigit_of_mem_digits (n := n.natAbs) (by rw [hd]; simp)
      have hminus : c ≠ minusSign := by
        rintro rfl
        cases hc
      have hplus : c ≠ plusSign := by
        rintro rfl
        cases hc
      rw [parseInt, if_neg hminus, if_neg hplus, ← hd, takeWhile_digits, ofDigits_digits]
      omega

/-- The numeral of an `int` has at most a sign and ten digits. -/
theorem length_numeral_le {n : Int} {k : Nat} (hk : 0 < k) (h : n.natAbs < 10 ^ k) :
    (numeral n).length ≤ k + 1 := by
  have hlen := length_digits_le hk h
  rw [numeral, List.length_append]
  unfold signBytes
  split
  · rw [List.length_singleton]
    omega
  · rw [List.length_nil]
    omega

/-! ### A fixed number of decimals -/

/-- The nearest integer, and of two the even one. -/
def roundEven (q : ℚ) : Int :=
  if q - ⌊q⌋ < 1 / 2 ∨ q - ⌊q⌋ = 1 / 2 ∧ ⌊q⌋ % 2 = 0 then ⌊q⌋ else ⌊q⌋ + 1

/-- Exactly `p` digits, for a number that has no more. -/
def paddedDigits (p n : Nat) : Bytes := List.replicate (p - (digits n).length) 48 ++ digits n

/-- `%.*f` for the precision `p`, which is not 0. -/
def fixed (p : Nat) (neg : Bool) (mag : ℚ) : Bytes :=
  let n := (roundEven (mag * 10 ^ p)).natAbs
  signBytes neg ++ digits (n / 10 ^ p) ++ decimalPoint :: paddedDigits p (n % 10 ^ p)

theorem length_paddedDigits {p n : Nat} (hp : 0 < p) (h : n < 10 ^ p) :
    (paddedDigits p n).length = p := by
  have hlen := length_digits_le hp h
  rw [paddedDigits, List.length_append, List.length_replicate]
  omega

theorem signBytes_no_point (neg : Bool) : ∀ b ∈ signBytes neg, b ≠ decimalPoint := by
  cases neg with
  | false => simp [signBytes]
  | true => simp [signBytes, minusSign, decimalPoint]

theorem digits_no_point (n : Nat) : ∀ b ∈ digits n, b ≠ decimalPoint := by
  rintro b hb rfl
  have hdigit := isDigit_of_mem_digits hb
  cases hdigit

theorem numeral_no_point (n : Int) : decimalPoint ∉ numeral n := by
  intro h
  rcases List.mem_append.mp h with h | h
  · exact signBytes_no_point _ _ h rfl
  · exact digits_no_point _ _ h rfl

/-- Rounding reaches an even number from half below it. -/
theorem roundEven_lt_iff {q : ℚ} {n : Int} (hn : n % 2 = 0) : roundEven q < n ↔ q + 1 / 2 < n := by
  have hlow := Int.floor_le q
  have hhigh := Int.lt_floor_add_one q
  unfold roundEven
  split
  · next hdown =>
    constructor
    · intro hlt
      rcases Int.lt_or_eq_of_le (Int.le_sub_one_of_lt hlt) with hfar | hnear
      · have hle : ((⌊q⌋ + 1 : Int) : ℚ) ≤ ((n - 1 : Int) : ℚ) := by exact_mod_cast hfar
        push_cast at hle
        linarith
      · -- the number in front of `n` is odd, so the fraction is less than a half
        have hodd : ⌊q⌋ % 2 ≠ 0 := by omega
        have hfraction : q - ⌊q⌋ < 1 / 2 := hdown.resolve_right fun h => hodd h.2
        have heq : (⌊q⌋ : ℚ) = n - 1 := by
          rw [hnear]
          push_cast
          ring
        linarith
    · intro hlt
      have hfloor : (⌊q⌋ : ℚ) < n := by linarith
      exact_mod_cast hfloor
  · next hup =>
    have hfraction : 1 / 2 ≤ q - ⌊q⌋ := not_lt.mp fun h => hup (Or.inl h)
    constructor
    · intro hlt
      have hle : ((⌊q⌋ + 2 : Int) : ℚ) ≤ (n : ℚ) := by exact_mod_cast (by omega : ⌊q⌋ + 2 ≤ n)
      push_cast at hle
      linarith
    · intro hlt
      have hfloor : ((⌊q⌋ + 1 : Int) : ℚ) < n := by
        push_cast
        linarith
      exact_mod_cast hfloor

/-- A sign, the digits in front of the point, the point, and those behind it. -/
theorem length_fixed {p : Nat} (hp : 0 < p) (neg : Bool) (mag : ℚ) : (fixed p neg mag).length
    = (signBytes neg).length + (digits ((roundEven (mag * 10 ^ p)).natAbs / 10 ^ p)).length
      + (p + 1) := by
  rw [fixed, List.length_append, List.length_append, List.length_cons,
    length_paddedDigits hp (Nat.mod_lt _ (by positivity))]

/-- **When there are at most `k` digits in front of the point.** -/
theorem length_fixed_le_iff {p k : Nat} (hp : 0 < p) (hk : 0 < k) (neg : Bool) {mag : ℚ}
    (hmag : 0 ≤ mag) : (fixed p neg mag).length ≤ (signBytes neg).length + k + (p + 1) ↔
      mag * 10 ^ p + 1 / 2 < 10 ^ (k + p) := by
  have hscaled : 0 ≤ mag * 10 ^ p := by positivity
  have hround : 0 ≤ roundEven (mag * 10 ^ p) := by
    have hfloor : 0 ≤ ⌊mag * 10 ^ p⌋ := Int.floor_nonneg.mpr hscaled
    unfold roundEven
    split
    · exact hfloor
    · omega
  have heven : ((10 ^ (k + p) : Nat) : Int) % 2 = 0 := by
    have hdvd : 2 ∣ 10 ^ (k + p) := dvd_pow (by decide) (by omega)
    omega
  have hnat : (roundEven (mag * 10 ^ p)).natAbs < 10 ^ k * 10 ^ p ↔
      roundEven (mag * 10 ^ p) < ((10 ^ (k + p) : Nat) : Int) := by
    rw [← pow_add]
    omega
  have hcast : (((10 ^ (k + p) : Nat) : Int) : ℚ) = 10 ^ (k + p) := by
    push_cast
    ring
  rw [length_fixed hp, Nat.add_le_add_iff_right, Nat.add_le_add_iff_left, length_digits_le_iff hk,
    Nat.div_lt_iff_lt_mul (by positivity), hnat, roundEven_lt_iff heven, hcast]

/-- Rounding adds no digit to a magnitude that is one below `10 ^ m`. -/
theorem length_fixed_le {p m : Nat} (hp : 0 < p) (hm : 0 < m) (neg : Bool) {mag : ℚ} (h : 0 ≤ mag)
    (hmag : mag + 1 < 10 ^ m) : (fixed p neg mag).length ≤ 1 + m + (p + 1) := by
  have hsign : (signBytes neg).length ≤ 1 := by
    cases neg with
    | false => decide
    | true => decide
  have hlen : (fixed p neg mag).length ≤ (signBytes neg).length + m + (p + 1) := by
    rw [length_fixed_le_iff hp hm neg h, pow_add]
    have hone : (1 : ℚ) ≤ 10 ^ p := one_le_pow₀ (by norm_num)
    calc
      mag * 10 ^ p + 1 / 2 < (mag + 1) * 10 ^ p := by linarith
      _ < 10 ^ m * 10 ^ p := mul_lt_mul_of_pos_right hmag (by positivity)
  omega

/-- What stands behind the point. -/
theorem fixed_dropWhile {p : Nat} (neg : Bool) (mag : ℚ) :
    (fixed p neg mag).dropWhile (· ≠ decimalPoint) = decimalPoint ::
      paddedDigits p ((roundEven (mag * 10 ^ p)).natAbs % 10 ^ p) := by
  have hfront : ∀ b ∈ signBytes neg ++ digits ((roundEven (mag * 10 ^ p)).natAbs / 10 ^ p),
      decide (b ≠ decimalPoint) = true := by
    intro b hb
    rw [decide_eq_true_iff]
    rcases List.mem_append.mp hb with hb | hb
    · exact signBytes_no_point _ _ hb
    · exact digits_no_point _ _ hb
  rw [fixed, List.dropWhile_append_of_pos hfront, List.dropWhile_cons_of_neg (by simp)]

/-- Texts with different numbers of decimals differ. -/
theorem fixed_injective {p p' : Nat} (hp : 0 < p) (hp' : 0 < p') {neg neg' : Bool} {mag mag' : ℚ}
    (h : fixed p neg mag = fixed p' neg' mag') : p = p' := by
  have hdrop : ((fixed p neg mag).dropWhile (· ≠ decimalPoint)).length
      = ((fixed p' neg' mag').dropWhile (· ≠ decimalPoint)).length := by
    rw [h]
  rw [fixed_dropWhile, fixed_dropWhile, List.length_cons, List.length_cons,
    length_paddedDigits hp (Nat.mod_lt _ (by positivity)),
    length_paddedDigits hp' (Nat.mod_lt _ (by positivity))] at hdrop
  exact Nat.succ.inj hdrop

theorem numeral_ne_fixed (n : Int) (p : Nat) (neg : Bool) (mag : ℚ) : numeral n ≠ fixed p neg mag := by
  intro h
  apply numeral_no_point n
  rw [h, fixed]
  simp

end Mym
