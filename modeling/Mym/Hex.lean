import Mym.Lib.Loop
import Mym.Lib.Utf16
import Mym.Serialize

/-!
# Text and bytes

`char2hex` turns the UTF-8 text of a `{S}` argument into one byte for each character, and `hex2char`
turns the bytes of a text column into UTF-8.  Their counters are `unsigned int`s while the lengths
they are given are not, so `uint` stands at every sum, and a loop that never comes to an end
uses up any fuel.  Their buffers come from `new`: a byte that has not been written is `none`.
-/

namespace Mym

/-- A value of type `unsigned int`. -/
def uint (n : Nat) : Nat := n % 2 ^ 32

theorem uint_eq {n : Nat} (h : n < 2 ^ 32) : uint n = n := Nat.mod_eq_of_lt h

/-- A buffer that has not been filled from the start. -/
abbrev Cells := List (Option UInt8)

/-- What a conversion returns: its buffer, and the place of the terminator in it. -/
structure Converted where
  cells : Cells
  length : Nat
  deriving DecidableEq

namespace Converted

/-- The string in the buffer is `bs`. -/
def Holds (c : Converted) (bs : Bytes) : Prop :=
  c.length = bs.length ∧ bs.map some ++ [some 0] <+: c.cells

instance (c : Converted) (bs : Bytes) : Decidable (c.Holds bs) := inferInstanceAs (Decidable (_ ∧ _))

theorem Holds.unique {c : Converted} {bs bs' : Bytes} (h : c.Holds bs) (h' : c.Holds bs') :
    bs = bs' := by
  have hlen : (bs.map some ++ [some (0 : UInt8)]).length = (bs'.map some ++ [some 0]).length := by
    rw [List.length_append, List.length_append, List.length_map, List.length_map, ← h.1, ← h'.1]
  have heq := List.IsPrefix.eq_of_length_le
    (List.prefix_of_prefix_length_le h.2 h'.2 (Nat.le_of_eq hlen)) (Nat.le_of_eq hlen.symm)
  exact List.map_injective_iff.mpr (Option.some_injective _) (List.append_cancel_right heq)

end Converted

/-! ### From bytes to text -/

structure Hex2Char where
  a : Nat
  offset : Nat
  result : Cells

/-- The condition of the loop. -/
def Hex2Char.more (charLength : Nat) (s : Hex2Char) : Bool := s.a < charLength

theorem Hex2Char.more_of_lt {charLength a offset : Nat} {result : Cells} (h : a < charLength) :
    Hex2Char.more charLength ⟨a, offset, result⟩ = true := decide_eq_true h

theorem Hex2Char.more_of_le {charLength a offset : Nat} {result : Cells} (h : charLength ≤ a) :
    Hex2Char.more charLength ⟨a, offset, result⟩ = false := decide_eq_false (Nat.not_lt.mpr h)

/-- `result_pnt[pos]`, `result_pnt[pos+1]` and so on. -/
def putCells (result : Cells) : Nat → Bytes → Result Cells
  | _, [] => .ok result
  | pos, b :: bs => do
    let result ← writeEntry result (uint pos) (some b)
    putCells result (pos + 1) bs

def hex2charStep (val : Bytes) (s : Hex2Char) : Result Hex2Char := do
  let c ← readByte val s.a
  let v := c.toNat
  if v ≤ 0x7F then do
    let result ← putCells s.result (s.a + s.offset) [c]
    .ok ⟨uint (s.a + 1), s.offset, result⟩
  else if v ≤ 0x7FF then do
    let result ← putCells s.result (s.a + s.offset)
      [UInt8.ofNat ((v >>> 6) + 0xC0), UInt8.ofNat ((v &&& 0x3F) + 0x80)]
    .ok ⟨uint (s.a + 1), uint (s.offset + 1), result⟩
  -- a byte never comes as far as here
  else if 0xD800 ≤ v ∧ v ≤ 0xDFFF then .raised .invalidUtf8
  else if v ≤ 0xFFFF then do
    let result ← putCells s.result (s.a + s.offset)
      [UInt8.ofNat ((v >>> 12) + 0xE0), UInt8.ofNat (((v >>> 6) &&& 0x3F) + 0x80),
        UInt8.ofNat ((v &&& 0x3F) + 0x80)]
    .ok ⟨uint (s.a + 1), uint (s.offset + 2), result⟩
  else if v ≤ 0x10FFFF then do
    let result ← putCells s.result (s.a + s.offset)
      [UInt8.ofNat ((v >>> 18) + 0xF0), UInt8.ofNat (((v >>> 12) &&& 0x3F) + 0x80),
        UInt8.ofNat (((v >>> 6) &&& 0x3F) + 0x80), UInt8.ofNat ((v &&& 0x3F) + 0x80)]
    .ok ⟨uint (s.a + 1), uint (s.offset + 3), result⟩
  else .ok { s with a := uint (s.a + 1) }

def hex2char (fuel : Nat) (val : Bytes) (charLength : Nat) : Result Converted := do
  let s ← Outcome.loop (Hex2Char.more charLength) (hex2charStep val) fuel
    ⟨0, 0, List.replicate (charLength * 4) none⟩
  -- the index of the terminator is of type `size_t`
  let cells ← writeEntry s.result (charLength + s.offset) (some 0)
  .ok ⟨cells, charLength + s.offset⟩

/-! ### From text to bytes -/

structure Char2Hex where
  a : Nat
  idx : Nat
  result : Cells

def Char2Hex.more (vlength : Nat) (s : Char2Hex) : Bool := s.a < vlength

theorem Char2Hex.more_of_lt {vlength a idx : Nat} {result : Cells} (h : a < vlength) :
    Char2Hex.more vlength ⟨a, idx, result⟩ = true := decide_eq_true h

theorem Char2Hex.more_of_le {vlength a idx : Nat} {result : Cells} (h : vlength ≤ a) :
    Char2Hex.more vlength ⟨a, idx, result⟩ = false := decide_eq_false (Nat.not_lt.mpr h)

/-- What is left of an `int` in a `uint8_t`. -/
def intByte (n : Int) : UInt8 := UInt8.ofNat (n % 256).toNat

def char2hexStep (val : Bytes) (vlength : Nat) (s : Char2Hex) : Result Char2Hex := do
  let u0 ← readByte val s.a
  if u0 &&& 0xF8 = 0xF0 ∧ uint (s.a + 1 + 3) ≤ vlength then do
    let u1 ← readByte val (uint (s.a + 1))
    let u2 ← readByte val (uint (s.a + 2))
    let u3 ← readByte val (uint (s.a + 3))
    let result ← writeEntry s.result s.idx (some (intByte
      (((u0.toNat : Int) - 0xF0) * 2 ^ 18 + ((u1.toNat : Int) - 0x80) * 2 ^ 12
        + ((u2.toNat : Int) - 0x80) * 2 ^ 6 + ((u3.toNat : Int) - 0x80))))
    .ok ⟨uint (s.a + 4), uint (s.idx + 1), result⟩
  else if u0 &&& 0xF0 = 0xE0 ∧ uint (s.a + 1 + 2) ≤ vlength then do
    let u1 ← readByte val (uint (s.a + 1))
    let u2 ← readByte val (uint (s.a + 2))
    if u0 = 0xED ∧ u1 &&& 0xA0 = 0xA0 then .raised .invalidUtf8
    else do
      let result ← writeEntry s.result s.idx (some (intByte
        (((u0.toNat : Int) - 0xE0) * 2 ^ 12 + ((u1.toNat : Int) - 0x80) * 2 ^ 6
          + ((u2.toNat : Int) - 0x80))))
      .ok ⟨uint (s.a + 3), uint (s.idx + 1), result⟩
  else if u0 &&& 0xE0 = 0xC0 ∧ uint (s.a + 1 + 1) ≤ vlength then do
    let u1 ← readByte val (uint (s.a + 1))
    let result ← writeEntry s.result s.idx (some (intByte
      (((u0.toNat : Int) - 0xC0) * 2 ^ 6 + ((u1.toNat : Int) - 0x80))))
    .ok ⟨uint (s.a + 2), uint (s.idx + 1), result⟩
  else do
    let result ← writeEntry s.result s.idx (some u0)
    .ok ⟨uint (s.a + 1), uint (s.idx + 1), result⟩

def char2hex (fuel : Nat) (val : Bytes) (vlength charLength : Nat) : Result Converted := do
  let s ← Outcome.loop (Char2Hex.more vlength) (char2hexStep val vlength) fuel
    ⟨0, 0, List.replicate charLength none⟩
  let cells ← writeEntry s.result s.idx (some 0)
  .ok ⟨cells, s.idx⟩

/-! ### Buffers -/

/-- A buffer filled from its beginning. -/
def filledCells (done : Bytes) (room : Nat) : Cells := done.map some ++ List.replicate room none

theorem filledCells_nil (room : Nat) : filledCells [] room = List.replicate room none := rfl

theorem writeEntry_filledCells {done : Bytes} {i : Nat} (hi : i = done.length) (b : UInt8)
    (room : Nat) : writeEntry (ε := MexError) (filledCells done (room + 1)) i (some b)
      = .ok (filledCells (done ++ [b]) room) := by
  rw [filledCells, List.replicate_succ, writeEntry_append (by rw [List.length_map, hi]), filledCells,
    List.map_append, List.append_assoc]
  rfl

theorem putCells_filledCells {done : Bytes} {pos : Nat} (bs : Bytes) (room : Nat)
    (hpos : pos = done.length) (hlt : pos + bs.length ≤ 2 ^ 32) :
    putCells (filledCells done (bs.length + room)) pos bs = .ok (filledCells (done ++ bs) room) := by
  induction bs generalizing done pos with
  | nil =>
    rw [putCells, List.append_nil, List.length_nil, Nat.zero_add]
  | cons b bs ih =>
    rw [List.length_cons] at hlt
    rw [putCells, List.length_cons, Nat.add_right_comm, uint_eq (by omega),
      writeEntry_filledCells hpos, Outcome.ok_bind,
      ih (by rw [List.length_append, hpos]; rfl) (by omega), List.append_assoc]
    rfl

theorem holds_of_filled {done : Bytes} {room : Nat} :
    Converted.Holds ⟨filledCells (done ++ [0]) room, done.length⟩ done := by
  refine ⟨rfl, ?_⟩
  rw [filledCells, List.map_append]
  exact List.prefix_append _ _

/-! ### One byte -/

/-- What holds of the first 256 numbers holds of a byte. -/
theorem byte_all {P : UInt8 → Prop} (h : ∀ n < 256, P (UInt8.ofNat n)) (b : UInt8) : P b := by
  have hb := h b.toNat b.toNat_lt
  rwa [UInt8.ofNat_toNat] at hb

theorem mask_four (b : UInt8) : b &&& 0xF8 = 0xF0 ↔ 0xF0 ≤ b.toNat ∧ b.toNat < 0xF8 :=
  byte_all (P := fun b => b &&& 0xF8 = 0xF0 ↔ 0xF0 ≤ b.toNat ∧ b.toNat < 0xF8) (by decide +kernel) b

theorem mask_three (b : UInt8) : b &&& 0xF0 = 0xE0 ↔ 0xE0 ≤ b.toNat ∧ b.toNat < 0xF0 :=
  byte_all (P := fun b => b &&& 0xF0 = 0xE0 ↔ 0xE0 ≤ b.toNat ∧ b.toNat < 0xF0) (by decide +kernel) b

theorem mask_two (b : UInt8) : b &&& 0xE0 = 0xC0 ↔ 0xC0 ≤ b.toNat ∧ b.toNat < 0xE0 :=
  byte_all (P := fun b => b &&& 0xE0 = 0xC0 ↔ 0xC0 ≤ b.toNat ∧ b.toNat < 0xE0) (by decide +kernel) b

/-- The byte after an `ED` that makes it a surrogate. -/
theorem mask_surrogate (b : UInt8) (h : 0x80 ≤ b.toNat) (h' : b.toNat < 0xC0) :
    b &&& 0xA0 = 0xA0 ↔ 0xA0 ≤ b.toNat :=
  byte_all (P := fun b => 0x80 ≤ b.toNat → b.toNat < 0xC0 → (b &&& 0xA0 = 0xA0 ↔ 0xA0 ≤ b.toNat))
    (by decide +kernel) b h h'

theorem intByte_natCast (n : Nat) : intByte n = UInt8.ofNat n := by
  have h : ((n : Int) % 256).toNat = n % 256 := by
    omega
  rw [intByte, h, ← UInt8.toNat_inj, UInt8.toNat_ofNat', UInt8.toNat_ofNat']
  omega

/-! ### A text -/

section Point

variable {val : Bytes} {vlength a v : Nat} {done : Bytes} {room : Nat}

/-- A round on a character of one byte. -/
theorem char2hexStep_one (hat : At val a (encodePoint v)) (h : v ≤ 0x7F)
    (hlt : done.length ≤ a) (hwrap : a + 1 < 2 ^ 32) :
    char2hexStep val vlength ⟨a, done.length, filledCells done (room + 1)⟩
      = .ok ⟨a + 1, done.length + 1, filledCells (done ++ [UInt8.ofNat v]) room⟩ := by
  rw [encodePoint_one h] at hat
  have hb := toNat_ofNat_byte (by omega : v < 256)
  have h4 := mask_four (UInt8.ofNat v)
  have h3 := mask_three (UInt8.ofNat v)
  have h2 := mask_two (UInt8.ofNat v)
  rw [char2hexStep]
  dsimp only
  rw [readByte_of_at hat, Outcome.ok_bind, if_neg (by rw [h4]; omega), if_neg (by rw [h3]; omega),
    if_neg (by rw [h2]; omega), writeEntry_filledCells rfl, Outcome.ok_bind, uint_eq hwrap,
    uint_eq (by omega)]

theorem char2hexStep_two (hat : At val a (encodePoint v)) (h : 0x7F < v) (h' : v ≤ 0x7FF)
    (hend : a + 2 ≤ vlength) (hlt : done.length ≤ a) (hwrap : a + 2 < 2 ^ 32) :
    char2hexStep val vlength ⟨a, done.length, filledCells done (room + 1)⟩
      = .ok ⟨a + 2, done.length + 1, filledCells (done ++ [UInt8.ofNat v]) room⟩ := by
  rw [encodePoint_two h h'] at hat
  obtain ⟨hat0, hat1⟩ := at_cons.mp hat
  have hb := toNat_ofNat_byte (by omega : v / 64 + 0xC0 < 256)
  have hc := toNat_ofNat_byte (by omega : v % 64 + 0x80 < 256)
  have h4 := mask_four (UInt8.ofNat (v / 64 + 0xC0))
  have h3 := mask_three (UInt8.ofNat (v / 64 + 0xC0))
  have h2 := mask_two (UInt8.ofNat (v / 64 + 0xC0))
  have hval : (((v / 64 + 0xC0 : Nat) : Int) - 0xC0) * 2 ^ 6 + (((v % 64 + 0x80 : Nat) : Int) - 0x80)
      = (v : Int) := by
    omega
  rw [char2hexStep]
  dsimp only
  rw [readByte_of_at hat0, Outcome.ok_bind, if_neg (by rw [h4]; omega), if_neg (by rw [h3]; omega),
    uint_eq (by omega : a + 1 + 1 < 2 ^ 32), if_pos (by rw [h2]; omega),
    uint_eq (by omega : a + 1 < 2 ^ 32), readByte_of_at hat1, Outcome.ok_bind, hb, hc, hval,
    intByte_natCast, writeEntry_filledCells rfl, Outcome.ok_bind, uint_eq (by omega : _ + 1 < 2 ^ 32)]

/-- A character of three bytes that is no surrogate. -/
theorem char2hexStep_three (hat : At val a (encodePoint v)) (h : 0x7FF < v) (h' : v ≤ 0xFFFF)
    (hs : ¬IsSurrogate v) (hend : a + 3 ≤ vlength) (hlt : done.length ≤ a)
    (hwrap : a + 3 < 2 ^ 32) :
    char2hexStep val vlength ⟨a, done.length, filledCells done (room + 1)⟩
      = .ok ⟨a + 3, done.length + 1, filledCells (done ++ [UInt8.ofNat v]) room⟩ := by
  rw [encodePoint_three h h'] at hat
  obtain ⟨hat0, hat⟩ := at_cons.mp hat
  obtain ⟨hat1, hat2⟩ := at_cons.mp hat
  have hb := toNat_ofNat_byte (by omega : v / 4096 + 0xE0 < 256)
  have hc := toNat_ofNat_byte (by omega : v / 64 % 64 + 0x80 < 256)
  have hd := toNat_ofNat_byte (by omega : v % 64 + 0x80 < 256)
  have h4 := mask_four (UInt8.ofNat (v / 4096 + 0xE0))
  have h3 := mask_three (UInt8.ofNat (v / 4096 + 0xE0))
  have hno : ¬(UInt8.ofNat (v / 4096 + 0xE0) = 0xED ∧ UInt8.ofNat (v / 64 % 64 + 0x80) &&& 0xA0 = 0xA0) := by
    intro hw
    obtain ⟨hED, hA0⟩ := hw
    rw [mask_surrogate _ (by omega) (by omega), hc] at hA0
    have hED : v / 4096 + 0xE0 = 0xED := by
      rw [← hb, hED]
      rfl
    exact hs (by omega)
  have hval : (((v / 4096 + 0xE0 : Nat) : Int) - 0xE0) * 2 ^ 12
      + (((v / 64 % 64 + 0x80 : Nat) : Int) - 0x80) * 2 ^ 6 + (((v % 64 + 0x80 : Nat) : Int) - 0x80)
      = (v : Int) := by
    omega
  rw [char2hexStep]
  dsimp only
  rw [readByte_of_at hat0, Outcome.ok_bind, if_neg (by rw [h4]; omega),
    uint_eq (by omega : a + 1 + 2 < 2 ^ 32), if_pos (by rw [h3]; omega),
    uint_eq (by omega : a + 1 < 2 ^ 32), readByte_of_at hat1, Outcome.ok_bind,
    uint_eq (by omega : a + 2 < 2 ^ 32), readByte_of_at hat2, Outcome.ok_bind, if_neg hno, hb, hc, hd,
    hval, intByte_natCast, writeEntry_filledCells rfl, Outcome.ok_bind,
    uint_eq (by omega : _ + 1 < 2 ^ 32)]

theorem char2hexStep_four (hat : At val a (encodePoint v)) (h : 0xFFFF < v) (hv : IsPoint v)
    (hend : a + 4 ≤ vlength) (hlt : done.length ≤ a) (hwrap : a + 4 < 2 ^ 32) :
    char2hexStep val vlength ⟨a, done.length, filledCells done (room + 1)⟩
      = .ok ⟨a + 4, done.length + 1, filledCells (done ++ [UInt8.ofNat v]) room⟩ := by
  unfold IsPoint at hv
  rw [encodePoint_four h] at hat
  obtain ⟨hat0, hat⟩ := at_cons.mp hat
  obtain ⟨hat1, hat⟩ := at_cons.mp hat
  obtain ⟨hat2, hat3⟩ := at_cons.mp hat
  have hb := toNat_ofNat_byte (by omega : v / 262144 + 0xF0 < 256)
  have hc := toNat_ofNat_byte (by omega : v / 4096 % 64 + 0x80 < 256)
  have hd := toNat_ofNat_byte (by omega : v / 64 % 64 + 0x80 < 256)
  have he := toNat_ofNat_byte (by omega : v % 64 + 0x80 < 256)
  have h4 := mask_four (UInt8.ofNat (v / 262144 + 0xF0))
  have hval : (((v / 262144 + 0xF0 : Nat) : Int) - 0xF0) * 2 ^ 18
      + (((v / 4096 % 64 + 0x80 : Nat) : Int) - 0x80) * 2 ^ 12
      + (((v / 64 % 64 + 0x80 : Nat) : Int) - 0x80) * 2 ^ 6 + (((v % 64 + 0x80 : Nat) : Int) - 0x80)
      = (v : Int) := by
    omega
  rw [char2hexStep]
  dsimp only
  rw [readByte_of_at hat0, Outcome.ok_bind, uint_eq (by omega : a + 1 + 3 < 2 ^ 32),
    if_pos (by rw [h4]; omega), uint_eq (by omega : a + 1 < 2 ^ 32), readByte_of_at hat1,
    Outcome.ok_bind, uint_eq (by omega : a + 2 < 2 ^ 32), readByte_of_at hat2, Outcome.ok_bind,
    uint_eq (by omega : a + 3 < 2 ^ 32), readByte_of_at hat3, Outcome.ok_bind, hb, hc, hd, he, hval,
    intByte_natCast, writeEntry_filledCells rfl, Outcome.ok_bind, uint_eq (by omega : _ + 1 < 2 ^ 32)]

/-- **A round on a character** that is no surrogate stores the low byte of its code point. -/
theorem char2hexStep_point (room : Nat) (hat : At val a (encodePoint v)) (hv : IsPoint v)
    (hs : ¬IsSurrogate v) (hend : a + pointWidth v ≤ vlength) (hlt : done.length ≤ a)
    (hwrap : a + pointWidth v < 2 ^ 32) :
    char2hexStep val vlength ⟨a, done.length, filledCells done (room + 1)⟩
      = .ok ⟨a + pointWidth v, done.length + 1, filledCells (done ++ [UInt8.ofNat v]) room⟩ := by
  by_cases h1 : v ≤ 0x7F
  · have hw : pointWidth v = 1 := if_pos h1
    rw [hw] at hwrap ⊢
    exact char2hexStep_one hat h1 hlt hwrap
  by_cases h2 : v ≤ 0x7FF
  · have hw : pointWidth v = 2 := by
      rw [pointWidth, if_neg h1, if_pos h2]
    rw [hw] at hend hwrap ⊢
    exact char2hexStep_two hat (by omega) h2 hend hlt hwrap
  by_cases h3 : v ≤ 0xFFFF
  · have hw : pointWidth v = 3 := by
      rw [pointWidth, if_neg h1, if_neg h2, if_pos h3]
    rw [hw] at hend hwrap ⊢
    exact char2hexStep_three hat (by omega) h3 hs hend hlt hwrap
  · have hw : pointWidth v = 4 := by
      rw [pointWidth, if_neg h1, if_neg h2, if_neg h3]
    rw [hw] at hend hwrap ⊢
    exact char2hexStep_four hat (by omega) hv hend hlt hwrap

/-- **A run over characters** that are no surrogates. -/
theorem char2hex_rounds {vs : List Nat} (done : Bytes) (room : Nat)
    (hat : At val a (encodePoints vs)) (hv : ∀ v ∈ vs, IsPoint v)
    (hs : ∀ v ∈ vs, ¬IsSurrogate v) (hend : a + (encodePoints vs).length ≤ vlength)
    (hlt : done.length ≤ a) (hwrap : a + (encodePoints vs).length < 2 ^ 32) :
    Outcome.Rounds (Char2Hex.more vlength) (char2hexStep val vlength) vs.length
      ⟨a, done.length, filledCells done (vs.length + room)⟩
      ⟨a + (encodePoints vs).length, done.length + vs.length,
        filledCells (done ++ vs.map UInt8.ofNat) room⟩ := by
  induction vs generalizing a done with
  | nil =>
    show _ = _
    rw [List.map_nil, List.append_nil, List.length_nil, Nat.zero_add]
    rfl
  | cons v vs ih =>
    rw [List.forall_mem_cons] at hv hs
    rw [length_encodePoints_cons] at hend hwrap ⊢
    obtain ⟨hat1, hat2⟩ := at_append.mp hat
    rw [length_encodePoint] at hat2
    have hpos := pointWidth_pos v
    have hstep := char2hexStep_point (vs.length + room) hat1 hv.1 hs.1
      (by omega : a + pointWidth v ≤ vlength) hlt (by omega)
    have hrest := ih (done ++ [UInt8.ofNat v]) hat2 hv.2 hs.2 (by omega)
      (by rw [List.length_append, List.length_singleton]; omega) (by omega)
    rw [List.length_append, List.length_singleton, List.append_assoc] at hrest
    refine ⟨Char2Hex.more_of_lt (by omega : a < _), ⟨a + pointWidth v, done.length + 1,
      filledCells (done ++ [UInt8.ofNat v]) (vs.length + room)⟩, ?_, ?_⟩
    · rw [List.length_cons, Nat.add_right_comm]
      exact hstep
    · rw [List.length_cons, List.map_cons, ← Nat.add_assoc, Nat.add_comm vs.length 1, ← Nat.add_assoc]
      exact hrest

end Point

/-! ### The error -/

/-- A round raises its error at an `ED` whose next byte makes it a surrogate.  The index of
the next byte is an `unsigned int`. -/
def Surrogate (u : Bytes) (a : Nat) : Prop :=
  u[a]? = some 0xED ∧ ∃ b ∈ u[uint (a + 1)]?, b &&& 0xA0 = 0xA0

section Error

variable {val : Bytes} {vlength : Nat} {s : Char2Hex}

/-- Whatever is stored last, storing it raises no error. -/
theorem store_ne_raised (result : Cells) (i : Nat) (b : UInt8) (f : Cells → Char2Hex)
    (e : MexError) : (writeEntry result i (some b) >>= fun r => (.ok (f r) : Result Char2Hex))
      ≠ .raised e := by
  apply Outcome.bind_ne_raised (writeEntry_ne_raised result i _ e)
  intro r _ h
  cases h

theorem char2hexStep_ne_raised (hno : ¬Surrogate val s.a) (e : MexError) :
    char2hexStep val vlength s ≠ .raised e := by
  rw [char2hexStep]
  apply Outcome.bind_ne_raised (readByte_ne_raised _ _ e)
  intro u0 h0
  split
  · apply Outcome.bind_ne_raised (readByte_ne_raised _ _ e)
    intro u1 _
    apply Outcome.bind_ne_raised (readByte_ne_raised _ _ e)
    intro u2 _
    apply Outcome.bind_ne_raised (readByte_ne_raised _ _ e)
    intro u3 _
    exact store_ne_raised _ _ _ _ e
  split
  · apply Outcome.bind_ne_raised (readByte_ne_raised _ _ e)
    intro u1 h1
    apply Outcome.bind_ne_raised (readByte_ne_raised _ _ e)
    intro u2 _
    rw [if_neg]
    · exact store_ne_raised _ _ _ _ e
    · intro h
      obtain ⟨rfl, hb⟩ := h
      exact hno ⟨readByte_eq_ok.mp h0, u1, readByte_eq_ok.mp h1, hb⟩
  split
  · apply Outcome.bind_ne_raised (readByte_ne_raised _ _ e)
    intro u1 _
    exact store_ne_raised _ _ _ _ e
  · exact store_ne_raised _ _ _ _ e

theorem char2hexStep_raised (h : Surrogate val s.a) (hlen : uint (s.a + 3) ≤ vlength)
    (hin : uint (s.a + 2) < val.length) : char2hexStep val vlength s = .raised .invalidUtf8 := by
  obtain ⟨h0, b, h1, hb⟩ := h
  have h2 := readByte_eq_ok (ε := MexError).mpr (List.getElem?_eq_getElem hin)
  rw [char2hexStep, readByte_eq_ok.mpr h0, Outcome.ok_bind, if_neg, if_pos ⟨by decide, hlen⟩,
    readByte_eq_ok.mpr h1, Outcome.ok_bind, h2, Outcome.ok_bind, if_pos ⟨rfl, hb⟩]
  intro hw
  obtain ⟨hmask, -⟩ := hw
  exact absurd hmask (by decide)

/-- A surrogate at which the loop can stand. -/
def CaughtSurrogate (u : Bytes) : Prop := ∃ a < 2 ^ 32, Surrogate u a

/-- A round leaves the index below `2 ^ 32`. -/
theorem char2hexStep_lt {t : Char2Hex} (h : char2hexStep val vlength s = .ok t) : t.a < 2 ^ 32 := by
  rw [char2hexStep] at h
  obtain ⟨u0, -, h⟩ := Outcome.bind_eq_ok h
  split at h
  · obtain ⟨u1, -, h⟩ := Outcome.bind_eq_ok h
    obtain ⟨u2, -, h⟩ := Outcome.bind_eq_ok h
    obtain ⟨u3, -, h⟩ := Outcome.bind_eq_ok h
    obtain ⟨r, -, h⟩ := Outcome.bind_eq_ok h
    cases h
    exact Nat.mod_lt _ (by decide)
  split at h
  · obtain ⟨u1, -, h⟩ := Outcome.bind_eq_ok h
    obtain ⟨u2, -, h⟩ := Outcome.bind_eq_ok h
    split at h
    · cases h
    · obtain ⟨r, -, h⟩ := Outcome.bind_eq_ok h
      cases h
      exact Nat.mod_lt _ (by decide)
  split at h
  · obtain ⟨u1, -, h⟩ := Outcome.bind_eq_ok h
    obtain ⟨r, -, h⟩ := Outcome.bind_eq_ok h
    cases h
    exact Nat.mod_lt _ (by decide)
  · obtain ⟨r, -, h⟩ := Outcome.bind_eq_ok h
    cases h
    exact Nat.mod_lt _ (by decide)

theorem char2hex_ne_raised (hno : ¬CaughtSurrogate val) (fuel charLength : Nat) (e : MexError) :
    char2hex fuel val vlength charLength ≠ .raised e := by
  rw [char2hex]
  apply Outcome.bind_ne_raised
  · apply Outcome.loop_ne_raised (I := fun s => s.a < 2 ^ 32)
    · intro s t _ _ h
      exact char2hexStep_lt h
    · intro s hs _
      exact char2hexStep_ne_raised (fun h => hno ⟨s.a, hs, h⟩) e
    · exact (by decide : 0 < 2 ^ 32)
  · intro s _
    apply Outcome.bind_ne_raised (writeEntry_ne_raised _ _ _ e)
    intro r _ h
    cases h

/-- **A text of `2 ^ 32` bytes is never left**: the index wraps around before it reaches the end. -/
theorem char2hex_ne_ok (h : 2 ^ 32 ≤ vlength) (fuel charLength : Nat) (c : Converted) :
    char2hex fuel val vlength charLength ≠ .ok c := by
  intro hok
  obtain ⟨s, hs, -⟩ := Outcome.bind_eq_ok hok
  refine Outcome.loop_ne_ok (I := fun s => s.a < 2 ^ 32) ?_ ?_ fuel ?_ s hs
  · intro s t _ _ h
    exact char2hexStep_lt h
  · intro s hs
    exact Char2Hex.more_of_lt (Nat.lt_of_lt_of_le hs h)
  · exact (by decide : 0 < 2 ^ 32)

theorem surrogate_of_point {a v : Nat} (hat : At val a (encodePoint v)) (hs : IsSurrogate v)
    (ha : a + 1 < 2 ^ 32) : Surrogate val a := by
  rw [encodePoint_three (by omega) (by omega)] at hat
  obtain ⟨hat0, hat⟩ := at_cons.mp hat
  obtain ⟨hat1, -⟩ := at_cons.mp hat
  have hlead : UInt8.ofNat (v / 4096 + 0xE0) = 0xED := by
    rw [(by omega : v / 4096 + 0xE0 = 0xED)]
    rfl
  have hb := toNat_ofNat_byte (by omega : v / 64 % 64 + 0x80 < 256)
  refine ⟨?_, UInt8.ofNat (v / 64 % 64 + 0x80), ?_, ?_⟩
  · rw [← hlead]
    exact readByte_eq_ok.mp (readByte_of_at (ε := MexError) hat0)
  · rw [uint_eq ha]
    exact readByte_eq_ok.mp (readByte_of_at (ε := MexError) hat1)
  · rw [mask_surrogate _ (by omega) (by omega), hb]
    omega

/-- From the beginning of a character on, the loop raises its error at the next surrogate. -/
theorem char2hex_loop_raised {pre : List Nat} {a : Nat} (done : Bytes) (room : Nat)
    (hat : At val a (encodePoints pre)) (hv : ∀ v ∈ pre, IsPoint v) (hdone : done.length ≤ a)
    (hs : Surrogate val (a + (encodePoints pre).length))
    (hwrap : a + (encodePoints pre).length < 2 ^ 32)
    (hend : a + (encodePoints pre).length + 3 ≤ val.length) :
    ∃ n, Outcome.loop (Char2Hex.more val.length) (char2hexStep val val.length) n
      ⟨a, done.length, filledCells done (pre.length + room)⟩ = .raised .invalidUtf8 := by
  have hmod : ∀ n, uint n ≤ n := fun n => Nat.mod_le n _
  induction pre generalizing a done with
  | nil =>
    refine ⟨1, ?_⟩
    rw [encodePoints_nil, List.length_nil, Nat.add_zero] at hs hend
    have h3 := hmod (a + 3)
    have h2 := hmod (a + 2)
    rw [Outcome.loop_of_true (Char2Hex.more_of_lt (by omega : a < _)),
      char2hexStep_raised hs (by dsimp only; omega) (by dsimp only; omega)]
    rfl
  | cons v pre ih =>
    rw [List.forall_mem_cons] at hv
    rw [length_encodePoints_cons, ← Nat.add_assoc] at hs hwrap hend
    obtain ⟨hat1, hat2⟩ := at_append.mp hat
    rw [length_encodePoint] at hat2
    have hpos := pointWidth_pos v
    by_cases hsur : IsSurrogate v
    · have hhere : Surrogate val a := surrogate_of_point hat1 hsur (by omega)
      have h3 := hmod (a + 3)
      have h2 := hmod (a + 2)
      refine ⟨1, ?_⟩
      rw [Outcome.loop_of_true (Char2Hex.more_of_lt (by omega : a < _)),
        char2hexStep_raised hhere (by dsimp only; omega) (by dsimp only; omega)]
      rfl
    · have hstep := char2hexStep_point (pre.length + room) hat1 hv.1 hsur
        (by omega : a + pointWidth v ≤ val.length) hdone (by omega)
      obtain ⟨n, hn⟩ := ih (done ++ [UInt8.ofNat v]) hat2 hv.2
        (by rw [List.length_append, List.length_singleton]; omega) hs hwrap hend
      rw [List.length_append, List.length_singleton] at hn
      refine ⟨n + 1, ?_⟩
      rw [Outcome.loop_of_true (Char2Hex.more_of_lt (by omega : a < _)), List.length_cons,
        Nat.add_right_comm, hstep, Outcome.ok_bind]
      exact hn

end Error

/-! ### Whole texts -/

section Text

variable {vs : List Nat} (hv : ∀ v ∈ vs, IsPoint v)

include hv

/-- Once it stands at a surrogate, the loop has raised its error, in a buffer that holds a byte for each
character. -/
theorem char2hex_raised {charLength : Nat} (hcap : vs.length ≤ charLength)
    (h : CaughtSurrogate (encodePoints vs)) :
    ∃ fuel, char2hex fuel (encodePoints vs) (encodePoints vs).length charLength
      = .raised .invalidUtf8 := by
  obtain ⟨a, ha, hs⟩ := h
  obtain ⟨pre, v, post, rfl, rfl, hhead⟩ := encodePoints_at hv hs.1
    (by rw [IsTail]; decide)
  have hpre : ∀ w ∈ pre, IsPoint w := fun w hw => hv w (List.mem_append_left _ hw)
  obtain ⟨b, t, hb, hwidth, -, -⟩ := encodePoint_shape (hv v (by simp))
  rw [hb] at hhead
  cases hhead
  have hwidth : pointWidth v = 3 := hwidth.symm
  have hlen : (encodePoints pre).length + 3 ≤ (encodePoints (pre ++ v :: post)).length := by
    rw [encodePoints_append, List.length_append, length_encodePoints_cons, hwidth]
    omega
  have hat : At (encodePoints (pre ++ v :: post)) 0 (encodePoints pre) := by
    rw [encodePoints_append]
    exact at_start _ _
  rw [List.length_append] at hcap
  have hroom : charLength = pre.length + (charLength - pre.length) := by
    omega
  obtain ⟨n, hn⟩ := char2hex_loop_raised [] (charLength - pre.length) hat hpre
    (Nat.le_refl 0) (by rwa [Nat.zero_add]) (by rwa [Nat.zero_add]) (by rwa [Nat.zero_add])
  refine ⟨n, ?_⟩
  rw [← hroom, filledCells_nil] at hn
  rw [char2hex]
  exact congrArg (· >>= _) hn

/-- **A text without surrogates** becomes the low bytes of its code points. -/
theorem char2hex_eq (hs : ∀ v ∈ vs, ¬IsSurrogate v) (hlen : (encodePoints vs).length < 2 ^ 32)
    (room : Nat) :
    char2hex (vs.length + 1) (encodePoints vs) (encodePoints vs).length (vs.length + (room + 1))
      = .ok ⟨filledCells (vs.map UInt8.ofNat ++ [0]) room, vs.length⟩ := by
  have hrounds := char2hex_rounds [] (room + 1) (at_self (encodePoints vs)) hv hs
    (Nat.le_of_eq (Nat.zero_add (encodePoints vs).length)) (Nat.le_refl 0) (by rwa [Nat.zero_add])
  simp only [Nat.zero_add, List.length_nil, filledCells_nil, List.nil_append] at hrounds
  rw [char2hex, Outcome.loop_of_rounds hrounds 1,
    Outcome.loop_of_false (Char2Hex.more_of_le (Nat.le_refl _)), Outcome.ok_bind]
  dsimp only
  rw [writeEntry_filledCells (by rw [List.length_map])]
  rfl

theorem not_surrogate_of_not_caught (hno : ¬CaughtSurrogate (encodePoints vs))
    (hlen : (encodePoints vs).length < 2 ^ 32) : ∀ v ∈ vs, ¬IsSurrogate v := by
  intro v hmem hs
  obtain ⟨pre, post, rfl⟩ := List.append_of_mem hmem
  rw [encodePoints_append, List.length_append, encodePoints_cons, List.length_append,
    encodePoint_three (by omega) (by omega)] at hlen
  simp only [List.length_cons, List.length_nil] at hlen
  refine hno ⟨(encodePoints pre).length, by omega, surrogate_of_point (v := v) ?_ hs (by omega)⟩
  rw [encodePoints_append, encodePoints_cons, ← List.append_assoc]
  exact at_middle _ _ _

end Text

end Mym
