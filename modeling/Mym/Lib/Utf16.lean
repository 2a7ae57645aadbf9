import Mathlib.Data.List.Chain
import Mym.Lib.Utf8

/-!
# UTF-16

`decodeUnits` reads UTF-16 code units as code points.  A high surrogate with a low one behind it is one
code point; what becomes of a surrogate that stands alone is a parameter.  A text has as many code
points as units when it has no such pair (`length_decodeUnits_eq_iff`), and twice as many bytes of UTF-8
as units, but for its characters of one byte and of three (`length_encode_decodeUnits`).
-/

namespace Mym

abbrev IsHigh (u : Nat) : Prop := 0xD800 ≤ u ∧ u ≤ 0xDBFF

abbrev IsLow (u : Nat) : Prop := 0xDC00 ≤ u ∧ u ≤ 0xDFFF

/-- The code points from `D800` to `DFFF`. -/
abbrev IsSurrogate (v : Nat) : Prop := 0xD800 ≤ v ∧ v ≤ 0xDFFF

/-- The code point of a pair of surrogates. -/
def pairPoint (h l : Nat) : Nat := 0x10000 + (h - 0xD800) * 0x400 + (l - 0xDC00)

/-- The code point of a unit that is not in a pair. -/
def unitPoint (lone : Nat → Nat) (u : Nat) : Nat := if IsSurrogate u then lone u else u

def decodeUnits (lone : Nat → Nat) : List Nat → List Nat
  | [] => []
  | [u] => [unitPoint lone u]
  | h :: l :: us =>
    if IsHigh h ∧ IsLow l then pairPoint h l :: decodeUnits lone us
    else unitPoint lone h :: decodeUnits lone (l :: us)

/-- No high surrogate has a low one behind it. -/
abbrev NoPair (us : List Nat) : Prop := us.IsChain fun h l => ¬(IsHigh h ∧ IsLow l)

section

variable {lone : Nat → Nat}

theorem decodeUnits_pair {h l : Nat} (hp : IsHigh h ∧ IsLow l) (us : List Nat) :
    decodeUnits lone (h :: l :: us) = pairPoint h l :: decodeUnits lone us := by
  rw [decodeUnits, if_pos hp]

theorem decodeUnits_single {h l : Nat} (hp : ¬(IsHigh h ∧ IsLow l)) (us : List Nat) :
    decodeUnits lone (h :: l :: us) = unitPoint lone h :: decodeUnits lone (l :: us) := by
  rw [decodeUnits, if_neg hp]

variable (lone) in
theorem length_decodeUnits_le (us : List Nat) : (decodeUnits lone us).length ≤ us.length := by
  induction us using decodeUnits.induct with
  | case1 => exact Nat.le_refl 0
  | case2 u => exact Nat.le_refl 1
  | case3 h l us hp ih =>
    rw [decodeUnits_pair hp, List.length_cons, List.length_cons, List.length_cons]
    omega
  | case4 h l us hp ih =>
    rw [decodeUnits_single hp, List.length_cons, List.length_cons]
    omega

variable (lone) in
theorem length_decodeUnits_eq_iff (us : List Nat) :
    (decodeUnits lone us).length = us.length ↔ NoPair us := by
  induction us using decodeUnits.induct with
  | case1 => exact iff_of_true rfl .nil
  | case2 u => exact iff_of_true rfl (.singleton u)
  | case3 h l us hp ih =>
    have hle := length_decodeUnits_le lone us
    rw [decodeUnits_pair hp, NoPair, List.isChain_cons_cons, List.length_cons, List.length_cons,
      List.length_cons]
    refine ⟨fun heq => ?_, fun hno => absurd hp hno.1⟩
    omega
  | case4 h l us hp ih =>
    rw [decodeUnits_single hp, NoPair, List.isChain_cons_cons, List.length_cons, List.length_cons,
      Nat.add_right_cancel_iff, ih, and_iff_right hp]

/-- Every unit that is read gives a code point with the property, if units and pairs do. -/
theorem forall_decodeUnits {P : Nat → Prop} {us : List Nat} (hunit : ∀ u ∈ us, P (unitPoint lone u))
    (hpair : ∀ h l, IsHigh h → IsLow l → P (pairPoint h l)) : ∀ v ∈ decodeUnits lone us, P v := by
  induction us using decodeUnits.induct with
  | case1 => exact fun v hv => by cases hv
  | case2 u =>
    rw [decodeUnits, List.forall_mem_singleton]
    exact hunit u (by simp)
  | case3 h l us hp ih =>
    rw [decodeUnits_pair hp, List.forall_mem_cons]
    exact ⟨hpair h l hp.1 hp.2, ih fun u hu => hunit u (by simp [hu])⟩
  | case4 h l us hp ih =>
    rw [decodeUnits_single hp, List.forall_mem_cons]
    exact ⟨hunit h (by simp), ih fun u hu => hunit u (List.mem_cons_of_mem h hu)⟩

theorem isPoint_pairPoint {h l : Nat} (hh : IsHigh h) (hl : IsLow l) : IsPoint (pairPoint h l) := by
  unfold pairPoint
  omega

theorem isPoint_decodeUnits {us : List Nat} (hlone : ∀ u, lone u ≤ 0xFFFF) (hus : ∀ u ∈ us, u < 2 ^ 16) :
    ∀ v ∈ decodeUnits lone us, IsPoint v := by
  apply forall_decodeUnits
  · intro u hu
    have hunit := hus u hu
    have hl := hlone u
    unfold unitPoint
    split
    · omega
    · omega
  · intro h l hh hl
    exact isPoint_pairPoint hh hl

/-- How many characters have one byte. -/
def oneByte (vs : List Nat) : Nat := vs.countP (· ≤ 0x7F)

/-- How many characters have three bytes. -/
def threeBytes (vs : List Nat) : Nat := vs.countP fun v => 0x7FF < v ∧ v ≤ 0xFFFF

theorem width_unit {v : Nat} (hv : v ≤ 0xFFFF) (vs : List Nat) :
    pointWidth v + oneByte (v :: vs) + threeBytes vs = 2 + oneByte vs + threeBytes (v :: vs) := by
  simp only [oneByte, threeBytes, List.countP_cons, decide_eq_true_eq]
  unfold pointWidth
  by_cases hone : v ≤ 0x7F
  · rw [if_pos hone, if_pos hone, if_neg (by omega)]
    omega
  by_cases htwo : v ≤ 0x7FF
  · rw [if_neg hone, if_pos htwo, if_neg hone, if_neg (by omega)]
    omega
  · rw [if_neg hone, if_neg htwo, if_pos hv, if_neg hone, if_pos ⟨by omega, hv⟩]
    omega

/-- A pair has twice as many bytes as units. -/
theorem width_pair {v : Nat} (hv : 0xFFFF < v) (vs : List Nat) :
    pointWidth v = 4 ∧ oneByte (v :: vs) = oneByte vs ∧ threeBytes (v :: vs) = threeBytes vs := by
  simp only [oneByte, threeBytes, List.countP_cons, decide_eq_true_eq]
  refine ⟨?_, ?_, ?_⟩
  · rw [pointWidth, if_neg (by omega), if_neg (by omega), if_neg (by omega)]
  · rw [if_neg (by omega), Nat.add_zero]
  · rw [if_neg (by omega), Nat.add_zero]

theorem unitPoint_le (hlone : ∀ u, lone u ≤ 0xFFFF) {u : Nat} (hu : u < 2 ^ 16) :
    unitPoint lone u ≤ 0xFFFF := by
  have hl := hlone u
  unfold unitPoint
  split
  · exact hl
  · omega

/-- **How long the UTF-8 form is.** -/
theorem length_encode_decodeUnits (hlone : ∀ u, lone u ≤ 0xFFFF) {us : List Nat}
    (hus : ∀ u ∈ us, u < 2 ^ 16) :
    (encodePoints (decodeUnits lone us)).length + oneByte (decodeUnits lone us)
      = 2 * us.length + threeBytes (decodeUnits lone us) := by
  induction us using decodeUnits.induct with
  | case1 => rfl
  | case2 u =>
    have hunit := width_unit (unitPoint_le hlone (hus u (by simp))) []
    have hone : oneByte [] = 0 := rfl
    have hthree : threeBytes [] = 0 := rfl
    rw [decodeUnits, length_encodePoints_cons, encodePoints_nil, List.length_nil, List.length_singleton]
    omega
  | case3 h l us hp ih =>
    have hwide : 0xFFFF < pairPoint h l := by
      unfold pairPoint
      omega
    obtain ⟨hwidth, hone, hthree⟩ := width_pair hwide (decodeUnits lone us)
    have hrest := ih fun u hu => hus u (by simp [hu])
    rw [decodeUnits_pair hp, length_encodePoints_cons, hwidth, hone, hthree, List.length_cons,
      List.length_cons]
    omega
  | case4 h l us hp ih =>
    have hunit := width_unit (unitPoint_le hlone (hus h (by simp))) (decodeUnits lone (l :: us))
    have hrest := ih fun u hu => hus u (List.mem_cons_of_mem h hu)
    rw [decodeUnits_single hp, length_encodePoints_cons, List.length_cons]
    omega

/-- The code point 0 comes from the unit 0 alone. -/
theorem zero_mem_decodeUnits_iff (hlone : ∀ u, 0 < lone u) (us : List Nat) :
    0 ∈ decodeUnits lone us ↔ 0 ∈ us := by
  have hunit : ∀ u, 0 = unitPoint lone u ↔ 0 = u := by
    intro u
    have hl := hlone u
    unfold unitPoint
    split
    · omega
    · rfl
  induction us using decodeUnits.induct with
  | case1 => exact Iff.rfl
  | case2 u => rw [decodeUnits, List.mem_singleton, List.mem_singleton, hunit]
  | case3 h l us hp ih =>
    have hpos : 0 ≠ pairPoint h l := by
      unfold pairPoint
      omega
    have hh : 0 ≠ h := by omega
    have hl : 0 ≠ l := by omega
    rw [decodeUnits_pair hp, List.mem_cons, List.mem_cons, List.mem_cons, or_iff_right hpos,
      or_iff_right hh, or_iff_right hl]
    exact ih
  | case4 h l us hp ih =>
    rw [decodeUnits_single hp, List.mem_cons, List.mem_cons, hunit]
    exact or_congr Iff.rfl ih

end

end Mym
