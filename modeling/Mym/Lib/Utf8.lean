import Mathlib.Data.Nat.Bitwise
import Mym.Lib.Memory

/-!
# UTF-8

`encodePoint` is the UTF-8 form of one code point and `encodePoints` that of several.  A surrogate
is coded like any other number of its width, so on Unicode scalar values this is the encoding
of core (`encodePoint_toNat`), and beside it every code point has a form.

The first byte of a form tells its width (`leadWidth`), and the form its code point (`pointOf`), so a
text has one reading (`encodePoints_injective`).  A byte that follows (`IsTail`) is no first byte, so
a byte that is none begins a character (`encodePoints_at`).
-/

namespace Mym

/-- A Unicode code point, surrogates included. -/
abbrev IsPoint (v : Nat) : Prop := v < 0x110000

def encodePoint (v : Nat) : Bytes :=
  if v ≤ 0x7F then [UInt8.ofNat v]
  else if v ≤ 0x7FF then [UInt8.ofNat (v / 64 + 0xC0), UInt8.ofNat (v % 64 + 0x80)]
  else if v ≤ 0xFFFF then
    [UInt8.ofNat (v / 4096 + 0xE0), UInt8.ofNat (v / 64 % 64 + 0x80), UInt8.ofNat (v % 64 + 0x80)]
  else
    [UInt8.ofNat (v / 262144 + 0xF0), UInt8.ofNat (v / 4096 % 64 + 0x80),
      UInt8.ofNat (v / 64 % 64 + 0x80), UInt8.ofNat (v % 64 + 0x80)]

def encodePoints (vs : List Nat) : Bytes := vs.flatMap encodePoint

@[simp] theorem encodePoints_nil : encodePoints [] = [] := rfl

@[simp] theorem encodePoints_cons (v : Nat) (vs : List Nat) :
    encodePoints (v :: vs) = encodePoint v ++ encodePoints vs := rfl

theorem encodePoints_append (vs ws : List Nat) :
    encodePoints (vs ++ ws) = encodePoints vs ++ encodePoints ws := List.flatMap_append

/-! ### The four forms -/

theorem encodePoint_one {v : Nat} (h : v ≤ 0x7F) : encodePoint v = [UInt8.ofNat v] := if_pos h

theorem encodePoint_two {v : Nat} (h1 : 0x7F < v) (h2 : v ≤ 0x7FF) :
    encodePoint v = [UInt8.ofNat (v / 64 + 0xC0), UInt8.ofNat (v % 64 + 0x80)] := by
  rw [encodePoint, if_neg (by omega), if_pos h2]

theorem encodePoint_three {v : Nat} (h1 : 0x7FF < v) (h2 : v ≤ 0xFFFF) :
    encodePoint v = [UInt8.ofNat (v / 4096 + 0xE0), UInt8.ofNat (v / 64 % 64 + 0x80),
      UInt8.ofNat (v % 64 + 0x80)] := by
  rw [encodePoint, if_neg (by omega), if_neg (by omega), if_pos h2]

theorem encodePoint_four {v : Nat} (h : 0xFFFF < v) :
    encodePoint v = [UInt8.ofNat (v / 262144 + 0xF0), UInt8.ofNat (v / 4096 % 64 + 0x80),
      UInt8.ofNat (v / 64 % 64 + 0x80), UInt8.ofNat (v % 64 + 0x80)] := by
  rw [encodePoint, if_neg (by omega), if_neg (by omega), if_neg (by omega)]

theorem toNat_ofNat_byte {n : Nat} (h : n < 256) : (UInt8.ofNat n).toNat = n := by
  rw [UInt8.toNat_ofNat']
  omega

/-- How many bytes the form of a code point has. -/
def pointWidth (v : Nat) : Nat :=
  if v ≤ 0x7F then 1 else if v ≤ 0x7FF then 2 else if v ≤ 0xFFFF then 3 else 4

@[simp] theorem length_encodePoint (v : Nat) : (encodePoint v).length = pointWidth v := by
  unfold encodePoint pointWidth
  split
  · rfl
  split
  · rfl
  split
  · rfl
  · rfl

theorem pointWidth_pos (v : Nat) : 0 < pointWidth v := by
  unfold pointWidth
  split
  · decide
  split
  · decide
  split
  · decide
  · decide

theorem pointWidth_mono {v w : Nat} (h : v ≤ w) : pointWidth v ≤ pointWidth w := by
  unfold pointWidth
  grind

theorem length_encodePoints_cons (v : Nat) (vs : List Nat) :
    (encodePoints (v :: vs)).length = pointWidth v + (encodePoints vs).length := by
  rw [encodePoints_cons, List.length_append, length_encodePoint]

/-- A character has at least one byte. -/
theorem length_le_encodePoints (vs : List Nat) : vs.length ≤ (encodePoints vs).length := by
  induction vs with
  | nil => exact Nat.le_refl 0
  | cons v vs ih =>
    have := pointWidth_pos v
    rw [length_encodePoints_cons, List.length_cons]
    omega

/-- On Unicode scalar values this is the encoding of core. -/
theorem encodePoint_toNat (c : Char) : encodePoint c.toNat = String.utf8EncodeChar c := by
  have hc : c.val.toNat < 0x110000 := by
    rcases c.valid with h | ⟨-, h⟩
    · exact Nat.lt_trans h (by decide)
    · exact h
  show encodePoint c.val.toNat = _
  unfold encodePoint String.utf8EncodeChar
  dsimp only
  split
  · rfl
  split
  · rw [Nat.mod_eq_of_lt (by omega : c.val.toNat / 64 < 0x20)]
  split
  · rw [Nat.mod_eq_of_lt (by omega : c.val.toNat / 4096 < 0x10)]
  · rw [Nat.mod_eq_of_lt (by omega : c.val.toNat / 262144 < 0x08)]

/-! ### Reading a form -/

/-- How many bytes a form has that begins with this one. -/
def leadWidth (b : UInt8) : Nat :=
  if b.toNat < 0xC0 then 1 else if b.toNat < 0xE0 then 2 else if b.toNat < 0xF0 then 3 else 4

/-- The code point of a form. -/
def pointOf : Bytes → Nat
  | [b] => b.toNat
  | [b, c] => (b.toNat - 0xC0) * 64 + (c.toNat - 0x80)
  | [b, c, d] => (b.toNat - 0xE0) * 4096 + (c.toNat - 0x80) * 64 + (d.toNat - 0x80)
  | [b, c, d, e] => (b.toNat - 0xF0) * 262144 + (c.toNat - 0x80) * 4096 + (d.toNat - 0x80) * 64
      + (e.toNat - 0x80)
  | _ => 0

theorem pointOf_one (b : UInt8) : pointOf [b] = b.toNat := rfl

theorem pointOf_two (b c : UInt8) :
    pointOf [b, c] = (b.toNat - 0xC0) * 64 + (c.toNat - 0x80) := rfl

theorem pointOf_three (b c d : UInt8) :
    pointOf [b, c, d] = (b.toNat - 0xE0) * 4096 + (c.toNat - 0x80) * 64 + (d.toNat - 0x80) := rfl

theorem pointOf_four (b c d e : UInt8) :
    pointOf [b, c, d, e] = (b.toNat - 0xF0) * 262144 + (c.toNat - 0x80) * 4096
      + (d.toNat - 0x80) * 64 + (e.toNat - 0x80) := rfl

/-- A byte of a form that is not its first. -/
def IsTail (b : UInt8) : Prop := 0x80 ≤ b.toNat ∧ b.toNat < 0xC0

theorem isTail_ofNat (n : Nat) : IsTail (UInt8.ofNat (n % 64 + 0x80)) := by
  rw [IsTail, toNat_ofNat_byte (by omega)]
  omega

/-- A form is a first byte, which tells its width, and bytes that follow. -/
theorem encodePoint_shape {v : Nat} (hv : IsPoint v) :
    ∃ b t, encodePoint v = b :: t ∧ leadWidth b = pointWidth v ∧ ¬IsTail b ∧ ∀ x ∈ t, IsTail x := by
  unfold IsPoint at hv
  by_cases h1 : v ≤ 0x7F
  · refine ⟨_, _, encodePoint_one h1, ?_, ?_, by simp⟩
    · rw [leadWidth, pointWidth, toNat_ofNat_byte (by omega), if_pos (by omega), if_pos h1]
    · rw [IsTail, toNat_ofNat_byte (by omega)]
      omega
  by_cases h2 : v ≤ 0x7FF
  · refine ⟨_, _, encodePoint_two (by omega) h2, ?_, ?_, ?_⟩
    · rw [leadWidth, pointWidth, toNat_ofNat_byte (by omega), if_neg (by omega), if_pos (by omega),
        if_neg h1, if_pos h2]
    · rw [IsTail, toNat_ofNat_byte (by omega)]
      omega
    · simp only [List.forall_mem_cons, isTail_ofNat, List.not_mem_nil, false_implies, implies_true,
        and_self]
  by_cases h3 : v ≤ 0xFFFF
  · refine ⟨_, _, encodePoint_three (by omega) h3, ?_, ?_, ?_⟩
    · rw [leadWidth, pointWidth, toNat_ofNat_byte (by omega), if_neg (by omega), if_neg (by omega),
        if_pos (by omega), if_neg h1, if_neg h2, if_pos h3]
    · rw [IsTail, toNat_ofNat_byte (by omega)]
      omega
    · simp only [List.forall_mem_cons, isTail_ofNat, List.not_mem_nil, false_implies, implies_true,
        and_self]
  · refine ⟨_, _, encodePoint_four (by omega), ?_, ?_, ?_⟩
    · rw [leadWidth, pointWidth, toNat_ofNat_byte (by omega), if_neg (by omega), if_neg (by omega),
        if_neg (by omega), if_neg h1, if_neg h2, if_neg h3]
    · rw [IsTail, toNat_ofNat_byte (by omega)]
      omega
    · simp only [List.forall_mem_cons, isTail_ofNat, List.not_mem_nil, false_implies, implies_true,
        and_self]

theorem pointOf_encodePoint {v : Nat} (hv : IsPoint v) : pointOf (encodePoint v) = v := by
  unfold IsPoint at hv
  by_cases h1 : v ≤ 0x7F
  · rw [encodePoint_one h1, pointOf_one, toNat_ofNat_byte (by omega)]
  by_cases h2 : v ≤ 0x7FF
  · rw [encodePoint_two (by omega) h2, pointOf_two, toNat_ofNat_byte (by omega),
      toNat_ofNat_byte (by omega)]
    omega
  by_cases h3 : v ≤ 0xFFFF
  · rw [encodePoint_three (by omega) h3, pointOf_three, toNat_ofNat_byte (by omega),
      toNat_ofNat_byte (by omega), toNat_ofNat_byte (by omega)]
    omega
  · rw [encodePoint_four (by omega), pointOf_four, toNat_ofNat_byte (by omega),
      toNat_ofNat_byte (by omega), toNat_ofNat_byte (by omega), toNat_ofNat_byte (by omega)]
    omega

/-- A text has one reading. -/
theorem encodePoints_injective {vs ws : List Nat} (hv : ∀ v ∈ vs, IsPoint v)
    (hw : ∀ w ∈ ws, IsPoint w) (h : encodePoints vs = encodePoints ws) : vs = ws := by
  induction vs generalizing ws with
  | nil =>
    have := length_le_encodePoints ws
    rw [← h] at this
    exact (List.length_eq_zero_iff.mp (Nat.le_zero.mp this)).symm
  | cons v vs ih =>
    cases ws with
    | nil =>
      have := length_le_encodePoints (v :: vs)
      rw [h] at this
      cases this
    | cons w ws =>
      rw [List.forall_mem_cons] at hv hw
      obtain ⟨b, t, hb, hbw, -, -⟩ := encodePoint_shape hv.1
      obtain ⟨c, r, hc, hcw, -, -⟩ := encodePoint_shape hw.1
      rw [encodePoints_cons, encodePoints_cons] at h
      have hhead : b = c := by
        rw [hb, hc] at h
        exact (List.cons.inj h).1
      have hlen : (encodePoint v).length = (encodePoint w).length := by
        rw [length_encodePoint, length_encodePoint, ← hbw, ← hcw, hhead]
      obtain ⟨hpoint, hrest⟩ := List.append_inj h hlen
      rw [← pointOf_encodePoint hv.1, hpoint, pointOf_encodePoint hw.1, ih hv.2 hw.2 hrest]

/-- A byte that does not follow another begins a character. -/
theorem encodePoints_at {vs : List Nat} (hv : ∀ v ∈ vs, IsPoint v) {a : Nat} {b : UInt8}
    (h : (encodePoints vs)[a]? = some b) (hb : ¬IsTail b) :
    ∃ pre v post, vs = pre ++ v :: post ∧ a = (encodePoints pre).length
      ∧ (encodePoint v).head? = some b := by
  induction vs generalizing a with
  | nil => cases h
  | cons v vs ih =>
    rw [List.forall_mem_cons] at hv
    obtain ⟨c, t, hc, -, -, ht⟩ := encodePoint_shape hv.1
    rw [encodePoints_cons] at h
    rcases Nat.lt_or_ge a (encodePoint v).length with hlt | hge
    · rw [List.getElem?_append_left hlt, hc] at h
      cases a with
      | zero =>
        refine ⟨[], v, vs, rfl, rfl, ?_⟩
        rw [hc]
        exact h
      | succ a =>
        rw [List.getElem?_cons_succ] at h
        exact absurd (ht b (List.mem_of_getElem? h)) hb
    · rw [List.getElem?_append_right hge] at h
      obtain ⟨pre, w, post, rfl, hlen, hhead⟩ := ih hv.2 h
      refine ⟨v :: pre, w, post, rfl, ?_, hhead⟩
      rw [length_encodePoints_cons, ← hlen, ← length_encodePoint]
      omega

end Mym
