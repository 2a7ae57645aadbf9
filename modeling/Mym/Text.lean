import Mym.Hex

/-!
# Text that survives

`hex2char` writes its bytes as the characters from `U+0000` to `U+00FF` (`latin`), and `char2hex`
keeps the low byte of every character.  So `char2hex` takes back what `hex2char` has written
(`latin_survives_iff`), and `hex2char` rebuilds a text when it has no other characters
(`kept_iff`).  The counters of both loops add a bound on the length.
-/

namespace Mym

/-! ### Characters -/

/-- The UTF-8 form of a text. -/
def utf8 (s : List Char) : Bytes := s.flatMap String.utf8EncodeChar

theorem utf8_eq (s : List Char) : utf8 s = encodePoints (s.map Char.toNat) := by
  rw [utf8, encodePoints, List.flatMap_map]
  congr 1
  funext c
  exact (encodePoint_toNat c).symm

theorem isPoint_toNat (c : Char) : IsPoint c.toNat := by
  rcases c.valid with h | ⟨-, h⟩
  · exact Nat.lt_trans h (by decide)
  · exact h

theorem not_surrogate_toNat (c : Char) : ¬IsSurrogate c.toNat := by
  intro hw
  obtain ⟨h, h'⟩ := hw
  rcases c.valid with hc | ⟨hc, -⟩
  · exact absurd hc (Nat.not_lt.mpr h)
  · exact absurd hc (Nat.not_lt.mpr h')

theorem isPoint_points (s : List Char) : ∀ v ∈ s.map Char.toNat, IsPoint v := by
  intro v hv
  obtain ⟨c, -, rfl⟩ := List.mem_map.mp hv
  exact isPoint_toNat c

theorem not_surrogate_points (s : List Char) : ∀ v ∈ s.map Char.toNat, ¬IsSurrogate v := by
  intro v hv
  obtain ⟨c, -, rfl⟩ := List.mem_map.mp hv
  exact not_surrogate_toNat c

theorem utf8_injective {s s' : List Char} (h : utf8 s = utf8 s') : s = s' := by
  rw [utf8_eq, utf8_eq] at h
  have hpoints := encodePoints_injective (isPoint_points s) (isPoint_points s') h
  exact List.map_injective_iff.mpr (fun c d hcd => Char.toNat_inj.mp hcd) hpoints

/-- The text whose characters are the bytes. -/
def latin (b : Bytes) : List Char := b.map Char.ofUInt8

theorem latin_points (b : Bytes) : (latin b).map Char.toNat = b.map UInt8.toNat := by
  rw [latin, List.map_map]
  rfl

theorem utf8_latin (b : Bytes) : utf8 (latin b) = encodePoints (b.map UInt8.toNat) := by
  rw [utf8_eq, latin_points]

/-- A byte from `0x80` on takes two bytes. -/
theorem length_utf8_latin (b : Bytes) :
    (utf8 (latin b)).length = b.length + b.countP (0x80 ≤ ·) := by
  rw [utf8_latin]
  induction b with
  | nil => rfl
  | cons c b ih =>
    rw [List.map_cons, length_encodePoints_cons, ih, List.length_cons, List.countP_cons]
    have hc := c.toNat_lt
    have hle : 0x80 ≤ c ↔ 0x80 ≤ c.toNat := Iff.rfl
    unfold pointWidth
    by_cases h : c.toNat ≤ 0x7F
    · rw [if_pos h, if_neg (by rw [decide_eq_true_iff, hle]; omega)]
      omega
    · rw [if_neg h, if_pos (by omega), if_pos (by rw [decide_eq_true_iff, hle]; omega)]
      omega

/-! ### From bytes to text -/

section Bytes

variable {val : Bytes} {a offset : Nat} {done : Bytes} {room : Nat}

/-- **A round on a byte** writes its character. -/
theorem hex2charStep_byte {c : UInt8} (room : Nat) (hat : At val a [c]) (hpos : a + offset = done.length)
    (hwrap : done.length + pointWidth c.toNat < 2 ^ 32) :
    hex2charStep val ⟨a, offset, filledCells done (pointWidth c.toNat + room)⟩
      = .ok ⟨a + 1, offset + (pointWidth c.toNat - 1),
          filledCells (done ++ encodePoint c.toNat) room⟩ := by
  have hc := c.toNat_lt
  rw [hex2charStep]
  dsimp only
  rw [readByte_of_at hat, Outcome.ok_bind]
  by_cases h : c.toNat ≤ 0x7F
  · have hw : pointWidth c.toNat = 1 := if_pos h
    have hput := putCells_filledCells [c] room hpos
      (by rw [List.length_singleton]; omega)
    rw [hw] at hwrap ⊢
    rw [List.length_singleton] at hput
    rw [if_pos h, encodePoint_one h, UInt8.ofNat_toNat, hput, Outcome.ok_bind, uint_eq (by omega)]
    rfl
  · have hw : pointWidth c.toNat = 2 := by
      rw [pointWidth, if_neg h, if_pos (by omega)]
    have hform := encodePoint_two (by omega : 0x7F < c.toNat) (by omega)
    have hput := putCells_filledCells (encodePoint c.toNat) room hpos
      (by rw [length_encodePoint]; omega)
    have hshift : c.toNat >>> 6 = c.toNat / 64 := Nat.shiftRight_eq_div_pow _ 6
    have hmask : c.toNat &&& 0x3F = c.toNat % 64 := Nat.and_two_pow_sub_one_eq_mod _ 6
    rw [length_encodePoint, hform] at hput
    rw [if_neg h, if_pos (by omega), hshift, hmask, hform, hput, Outcome.ok_bind]
    rw [hw] at hwrap ⊢
    rw [uint_eq (by omega), uint_eq (by omega)]

theorem hex2char_rounds {bs : Bytes} (done : Bytes) (room : Nat) (hat : At val a bs)
    (hpos : a + offset = done.length)
    (hend : a + bs.length = val.length)
    (hwrap : done.length + (utf8 (latin bs)).length < 2 ^ 32) :
    Outcome.Rounds (Hex2Char.more val.length) (hex2charStep val) bs.length
      ⟨a, offset, filledCells done ((utf8 (latin bs)).length + room)⟩
      ⟨a + bs.length, offset + ((utf8 (latin bs)).length - bs.length),
        filledCells (done ++ utf8 (latin bs)) room⟩ := by
  rw [utf8_latin] at hwrap ⊢
  induction bs generalizing a offset done with
  | nil =>
    show _ = _
    simp
  | cons c bs ih =>
    rw [List.map_cons, length_encodePoints_cons] at hwrap ⊢
    rw [List.length_cons] at hend
    obtain ⟨hat1, hat2⟩ := at_cons.mp hat
    have hpos' := pointWidth_pos c.toNat
    have hle := length_le_encodePoints (bs.map UInt8.toNat)
    rw [List.length_map] at hle
    have hlen : (done ++ encodePoint c.toNat).length = done.length + pointWidth c.toNat := by
      rw [List.length_append, length_encodePoint]
    have hstep := hex2charStep_byte ((encodePoints (bs.map UInt8.toNat)).length + room)
      hat1 hpos (by omega)
    have hpos2 : a + 1 + (offset + (pointWidth c.toNat - 1))
        = (done ++ encodePoint c.toNat).length := by
      omega
    have hrest := ih (done ++ encodePoint c.toNat) hat2 hpos2 (by omega) (by omega)
    refine ⟨Hex2Char.more_of_lt (by omega : a < _), ⟨a + 1, offset + (pointWidth c.toNat - 1),
      filledCells (done ++ encodePoint c.toNat)
        ((encodePoints (bs.map UInt8.toNat)).length + room)⟩, ?_, ?_⟩
    · rw [Nat.add_assoc (pointWidth c.toNat)]
      exact hstep
    · have hoff : offset + (pointWidth c.toNat - 1)
          + ((encodePoints (bs.map UInt8.toNat)).length - bs.length)
          = offset + (pointWidth c.toNat + (encodePoints (bs.map UInt8.toNat)).length
            - (bs.length + 1)) := by
        omega
      rw [encodePoints_cons, ← List.append_assoc, List.length_cons, ← hoff, Nat.add_comm bs.length 1,
        ← Nat.add_assoc]
      exact hrest

end Bytes

/-- **What becomes of bytes**: each is a character. -/
theorem hex2char_eq {b : Bytes} (hb : b ≠ []) (hlen : (utf8 (latin b)).length < 2 ^ 32) :
    hex2char (b.length + 1) b b.length
      = .ok ⟨filledCells (utf8 (latin b) ++ [0]) (b.length * 4 - (utf8 (latin b)).length - 1),
          (utf8 (latin b)).length⟩ := by
  have hpos := List.length_pos_of_ne_nil hb
  have hcount : b.countP (0x80 ≤ ·) ≤ b.length := List.countP_le_length
  have hwidth := length_utf8_latin b
  have hrounds := hex2char_rounds [] (b.length * 4 - (utf8 (latin b)).length - 1 + 1) (at_self b)
    (Nat.add_zero 0) (Nat.zero_add _)
    (by rwa [List.length_nil, Nat.zero_add])
  have hbuffer : (utf8 (latin b)).length + (b.length * 4 - (utf8 (latin b)).length - 1 + 1)
      = b.length * 4 := by
    omega
  have hend : b.length + ((utf8 (latin b)).length - b.length) = (utf8 (latin b)).length := by
    omega
  simp only [Nat.zero_add, filledCells_nil, List.nil_append] at hrounds
  rw [hbuffer] at hrounds
  rw [hex2char, Outcome.loop_of_rounds hrounds 1,
    Outcome.loop_of_false (Hex2Char.more_of_le (Nat.le_refl _)), Outcome.ok_bind]
  dsimp only
  rw [hend, writeEntry_filledCells rfl]
  rfl

/-- No bytes have no room for the terminator. -/
theorem hex2char_nil (fuel : Nat) (c : Converted) : hex2char fuel [] 0 ≠ .ok c := by
  intro h
  cases fuel with
  | zero => cases h
  | succ n =>
    rw [hex2char,
      Outcome.loop_of_false (Hex2Char.more_of_le (Nat.le_refl 0))] at h
    cases h

/-! ### Bytes through text -/

/-- `hex2char` makes UTF-8 of the bytes, and `char2hex` makes the bytes of it, in a buffer of their
length and one more. -/
def LatinSurvives (b : Bytes) : Prop :=
  (∃ fuel c, hex2char fuel b b.length = .ok c ∧ c.Holds (utf8 (latin b))) ∧
    ∃ fuel, char2hex fuel (utf8 (latin b)) (utf8 (latin b)).length (b.length + 1)
      = .ok ⟨b.map some ++ [some 0], b.length⟩

/-- **Bytes survive** as long as their UTF-8 form can be counted. -/
theorem latin_survives_iff {b : Bytes} (hb : b ≠ []) :
    LatinSurvives b ↔ b.length + b.countP (0x80 ≤ ·) < 2 ^ 32 := by
  rw [← length_utf8_latin]
  refine ⟨?_, ?_⟩
  · intro hw
    obtain ⟨-, fuel, h⟩ := hw
    by_contra hge
    exact char2hex_ne_ok (Nat.not_lt.mp hge) _ _ _ h
  · intro hlen
    refine ⟨⟨_, _, hex2char_eq hb hlen, holds_of_filled⟩, b.length + 1, ?_⟩
    have hbytes : (b.map UInt8.toNat).map UInt8.ofNat = b := by
      rw [List.map_map]
      exact List.map_id'' (fun c => UInt8.ofNat_toNat) b
    have hpoints : ∀ v ∈ b.map UInt8.toNat, v < 256 := by
      intro v hv
      obtain ⟨c, -, rfl⟩ := List.mem_map.mp hv
      exact c.toNat_lt
    rw [utf8_latin] at hlen ⊢
    have heq := char2hex_eq (fun v hv => Nat.lt_trans (hpoints v hv) (by decide))
      (fun v hv hs => absurd (hpoints v hv) (by omega)) hlen 0
    rw [hbytes, List.length_map] at heq
    rw [heq, filledCells, List.map_append, List.replicate_zero, List.append_nil]
    rfl

theorem latin_survives_byte : [(0xE9 : UInt8)] ≠ [] ∧ LatinSurvives [0xE9] :=
  ⟨by decide, (latin_survives_iff (by decide)).mpr (by decide)⟩

/-- Two gigabytes of bytes that take two each are lost in the second loop. -/
theorem latin_lost : ¬LatinSurvives (List.replicate (2 ^ 31) 0xFF) := by
  intro hw
  obtain ⟨-, fuel, h⟩ := hw
  refine char2hex_ne_ok ?_ _ _ _ h
  rw [length_utf8_latin, List.length_replicate, List.countP_replicate]
  decide

/-! ### Text through bytes -/

/-- How many UTF-16 units a text has. -/
def utf16Length (s : List Char) : Nat := (s.map fun c => if c.toNat < 0x10000 then 1 else 2).sum

theorem length_le_utf16Length (s : List Char) : s.length ≤ utf16Length s := by
  induction s with
  | nil => exact Nat.le_refl 0
  | cons c s ih =>
    rw [utf16Length, List.map_cons, List.sum_cons, ← utf16Length, List.length_cons]
    split
    · omega
    · omega

/-- The error is raised for a text in a buffer that has room for its UTF-16 units and a NUL. -/
def TextRefused (s : List Char) : Prop :=
  ∃ fuel, char2hex fuel (utf8 s) (utf8 s).length (utf16Length s + 1) = .raised .invalidUtf8

/-- The text is stored as these bytes. -/
def StoredAs (s : List Char) (b : Bytes) : Prop :=
  ∃ fuel c, char2hex fuel (utf8 s) (utf8 s).length (utf16Length s + 1) = .ok c ∧ c.Holds b

/-- The text is what is read from these bytes. -/
def Rebuilt (s : List Char) (b : Bytes) : Prop :=
  ∃ fuel c, hex2char fuel b b.length = .ok c ∧ c.Holds (utf8 s)

/-- A text is refused, or is rebuilt from what it is stored as. -/
def Kept (s : List Char) : Prop := TextRefused s ∨ ∃ b, StoredAs s b ∧ Rebuilt s b

theorem char2hex_unique {m n : Nat} {val : Bytes} {vlength charLength : Nat}
    {x y : Result Converted} (h : char2hex m val vlength charLength = x)
    (h' : char2hex n val vlength charLength = y) (hx : x ≠ .diverged) (hy : y ≠ .diverged) :
    x = y := by
  subst h h'
  exact Outcome.loop_bind_unique hx hy

theorem hex2char_unique {m n : Nat} {val : Bytes} {charLength : Nat} {x y : Result Converted}
    (h : hex2char m val charLength = x) (h' : hex2char n val charLength = y)
    (hx : x ≠ .diverged) (hy : y ≠ .diverged) : x = y := by
  subst h h'
  exact Outcome.loop_bind_unique hx hy

theorem StoredAs.unique {s : List Char} {b b' : Bytes} (h : StoredAs s b) (h' : StoredAs s b') :
    b = b' := by
  obtain ⟨m, c, hc, hb⟩ := h
  obtain ⟨n, c', hc', hb'⟩ := h'
  cases char2hex_unique hc hc' (by simp) (by simp)
  exact hb.unique hb'

/-- Bytes rebuild one text. -/
theorem Rebuilt.unique {s s' : List Char} {b : Bytes} (h : Rebuilt s b) (h' : Rebuilt s' b) :
    s = s' := by
  obtain ⟨m, c, hc, hs⟩ := h
  obtain ⟨n, c', hc', hs'⟩ := h'
  cases hex2char_unique hc hc' (by simp) (by simp)
  exact utf8_injective (hs.unique hs')

/-- The low bytes of the characters. -/
def lowBytes (s : List Char) : Bytes := s.map fun c => UInt8.ofNat c.toNat

theorem storedAs_lowBytes {s : List Char} (hlen : (utf8 s).length < 2 ^ 32) :
    StoredAs s (lowBytes s) := by
  obtain ⟨room, hroom⟩ := Nat.exists_eq_add_of_le (length_le_utf16Length s)
  rw [utf8_eq] at hlen
  have heq := char2hex_eq (isPoint_points s) (not_surrogate_points s) hlen room
  rw [List.length_map, List.map_map] at heq
  refine ⟨s.length + 1, ⟨filledCells (lowBytes s ++ [0]) room, s.length⟩, ?_, ?_⟩
  · rw [utf8_eq, hroom, Nat.add_assoc]
    exact heq
  · have hlow : s.length = (lowBytes s).length := (List.length_map _).symm
    rw [hlow]
    exact holds_of_filled

theorem rebuilt_latin {b : Bytes} (hb : b ≠ []) (hlen : (utf8 (latin b)).length < 2 ^ 32) :
    Rebuilt (latin b) b := ⟨_, _, hex2char_eq hb hlen, holds_of_filled⟩

/-- The low bytes of a text take no more room than it. -/
theorem length_utf8_lowBytes (s : List Char) :
    (utf8 (latin (lowBytes s))).length ≤ (utf8 s).length := by
  rw [utf8_latin, utf8_eq]
  induction s with
  | nil => exact Nat.le_refl _
  | cons c s ih =>
    have hle : (UInt8.ofNat c.toNat).toNat ≤ c.toNat := by
      rw [UInt8.toNat_ofNat']
      exact Nat.mod_le _ _
    have hwidth := pointWidth_mono hle
    rw [lowBytes, List.map_cons, List.map_cons, List.map_cons, length_encodePoints_cons,
      length_encodePoints_cons]
    exact Nat.add_le_add hwidth ih

theorem latin_lowBytes_iff (s : List Char) :
    latin (lowBytes s) = s ↔ ∀ c ∈ s, c.toNat < 256 := by
  refine ⟨?_, ?_⟩
  · intro h c hc
    rw [← h] at hc
    obtain ⟨x, -, rfl⟩ := List.mem_map.mp hc
    exact x.toNat_lt
  · intro h
    rw [latin, lowBytes, List.map_map]
    conv_rhs => rw [← List.map_id s]
    apply List.map_congr_left
    intro c hc
    exact Char.toNat_inj.mp (toNat_ofNat_byte (h c hc))

/-- **Which texts are kept.**  A text is refused when the loop stands at a surrogate, which a text can
show only where the index wraps around; it is rebuilt when it is not empty, its UTF-8 form can be
counted and it has no character from `U+0100` on.  Texts that are rebuilt are told apart. -/
theorem kept_iff (s : List Char) :
    (Kept s ↔ CaughtSurrogate (utf8 s) ∨
      s ≠ [] ∧ (utf8 s).length < 2 ^ 32 ∧ ∀ c ∈ s, c.toNat < 256) ∧
    ∀ s' b, Rebuilt s b → Rebuilt s' b → s = s' := by
  refine ⟨⟨?_, ?_⟩, fun s' b => Rebuilt.unique⟩
  · intro hor
    rcases hor with ⟨fuel, h⟩ | ⟨b, hstored, hrebuilt⟩
    · by_contra hno
      exact char2hex_ne_raised (fun hc => hno (Or.inl hc)) fuel _ _ h
    · right
      have hlen : (utf8 s).length < 2 ^ 32 := by
        by_contra hge
        obtain ⟨fuel, c, hc, -⟩ := hstored
        exact char2hex_ne_ok (Nat.not_lt.mp hge) fuel _ c hc
      have hb := hstored.unique (storedAs_lowBytes hlen)
      subst hb
      have hne : s ≠ [] := by
        rintro rfl
        obtain ⟨fuel, c, hc, -⟩ := hrebuilt
        exact hex2char_nil fuel c hc
      have hlow : lowBytes s ≠ [] := fun h => hne (List.map_eq_nil_iff.mp h)
      have hlatin := rebuilt_latin hlow (Nat.lt_of_le_of_lt (length_utf8_lowBytes s) hlen)
      exact ⟨hne, hlen, (latin_lowBytes_iff s).mp (hlatin.unique hrebuilt)⟩
  · intro hor
    rcases hor with hcaught | ⟨hne, hlen, hlow⟩
    · left
      have hle := length_le_utf16Length s
      rw [utf8_eq] at hcaught
      have hcap : (s.map Char.toNat).length ≤ utf16Length s + 1 := by
        rw [List.length_map]
        omega
      obtain ⟨fuel, h⟩ := char2hex_raised (isPoint_points s) hcap hcaught
      refine ⟨fuel, ?_⟩
      rw [utf8_eq]
      exact h
    · right
      have hb : lowBytes s ≠ [] := fun h => hne (List.map_eq_nil_iff.mp h)
      have hlatin := (latin_lowBytes_iff s).mpr hlow
      refine ⟨lowBytes s, storedAs_lowBytes hlen, ?_⟩
      have hrebuilt := rebuilt_latin hb (by rwa [hlatin])
      rwa [hlatin] at hrebuilt

/-- **`U+0141` is altered**: it is stored as the `A` is, and comes back as one. -/
theorem altered_stroke :
    ¬Kept [Char.ofNat 0x141] ∧ StoredAs [Char.ofNat 0x141] [65] ∧ StoredAs [Char.ofNat 65] [65] ∧
      Rebuilt [Char.ofNat 65] [65] := by
  have hstored : StoredAs [Char.ofNat 0x141] [65] := storedAs_lowBytes (by decide)
  have hrebuilt : Rebuilt [Char.ofNat 65] [65] := rebuilt_latin (by decide) (by decide)
  refine ⟨?_, hstored, storedAs_lowBytes (by decide), hrebuilt⟩
  intro hor
  rcases hor with ⟨fuel, h⟩ | ⟨b, hb, hr⟩
  · obtain ⟨n, c, hc, -⟩ := hstored
    cases char2hex_unique h hc (by simp) (by simp)
  · rw [hb.unique hstored] at hr
    exact absurd (hr.unique hrebuilt) (by decide)

end Mym
