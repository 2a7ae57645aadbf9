import Mym.ResultRelease
import Mym.SerializeString

/-!
# Buffers of a given size

Three functions write to buffers whose size does not follow what is written.  `serializeString` prints a
number to 512 bytes, with as many decimals as the placeholder says; `fancyprint` prints the format of a
column to 10 bytes, with the width of the column in it; and `hex2char` has four bytes for each byte of
a text, which leaves none for the terminator of an empty one.

`number_fits_iff`, `fancyprint_fits_iff` and `hex2char_inside_iff` say for which inputs the buffers are
large enough.
-/

namespace Mym

/-! ### A number with decimals -/

/-- The text stands in the buffer of `sprintf`, with its NUL. -/
def HoldsText (r : Result StringText) (text : Bytes) : Prop :=
  ∃ t, r = .ok t ∧ t.buffer.cells.length = 512 ∧ t.buffer.Holds text ∧ t.rnBytes = text.length

theorem holdsText_sprintf (text : Bytes) : HoldsText (sprintf text) text ↔ text.length ≤ 511 := by
  constructor
  · intro h
    obtain ⟨t, ht, -⟩ := h
    unfold sprintf at ht
    split at ht
    · next hlt => exact Nat.le_of_lt_succ hlt
    · cases ht
  · intro h
    have hlt : text.length < 512 := Nat.lt_succ_of_le h
    rw [sprintf_of_lt hlt]
    refine ⟨_, rfl, ?_, holds_sprintf hlt, rfl⟩
    rw [List.length_append, List.length_map, List.length_replicate]
    omega

theorem RealScalar.number_of_float {x : RealScalar} (h : x.cls.isFloat = true) :
    x.number = Ieee.ofBits 11 52 (leNat x.array.re) ∨ x.number = Ieee.ofBits 8 23 (leNat x.array.re) := by
  rw [number]
  cases hc : x.cls with
  | double => exact Or.inl rfl
  | single => exact Or.inr rfl
  | _ =>
    rw [hc] at h
    cases h

theorem RealScalar.mag_range {x : RealScalar} (h : x.cls.isFloat = true) {neg : Bool} {mag : ℚ}
    (hx : x.number = .finite neg mag) : 0 ≤ mag ∧ mag + 1 < 10 ^ 309 := by
  rcases x.number_of_float h with hbits | hbits
  · rw [hbits] at hx
    exact ⟨(Ieee.ofBits_range (by decide) hx).1, Ieee.ofBits_add_one_lt (by decide) (by decide) hx⟩
  · rw [hbits] at hx
    exact ⟨(Ieee.ofBits_range (by decide) hx).1, Ieee.ofBits_add_one_lt (by decide) (by decide) hx⟩

section Number

variable {x : RealScalar} (hfloat : x.cls.isFloat = true) {rpArg : CStr}
  (hi : rpArg.1.head? ≠ some phInteger) {n : Int} (hn : atoi rpArg = .ok n)

include hfloat hi hn

theorem serializeString_decimals (fuel : Nat) (lone : Nat → Nat) :
    serializeString fuel lone rpArg (.full x.array) = sprintf (floatText (precision n) x.number) := by
  have hprint : x.cls.printable = true := by
    cases hc : x.cls with
    | double => rfl
    | single => rfl
    | _ =>
      rw [hc] at hfloat
      cases hfloat
  have hhead : (rpArg.1.head? == some phInteger) = false := beq_eq_false_iff_ne.mpr hi
  rw [x.serializeString_scalar, if_pos hprint, hfloat, printScalar, hhead]
  show atoi rpArg >>= _ = _
  rw [hn]
  rfl

/-- **When the text fits its 512 bytes.**  With the sign, the point and the decimals there is room for a
digit in front of the point, and the magnitude, rounded to the decimals, has no more digits than there is
room for. -/
theorem number_fits_iff {neg : Bool} {mag : ℚ} (hx : x.number = .finite neg mag) (fuel : Nat)
    (lone : Nat → Nat) :
    HoldsText (serializeString fuel lone rpArg (.full x.array)) (floatText (precision n) x.number) ↔
      precision n + (if neg then 1 else 0) < 510 ∧
        mag * 10 ^ precision n + 1 / 2 < 10 ^ (510 - if neg then 1 else 0) := by
  have hp := precision_pos n
  have hsign : (signBytes neg).length = if neg then 1 else 0 := by
    cases neg with
    | false => rfl
    | true => rfl
  rw [serializeString_decimals hfloat hi hn, holdsText_sprintf, hx, floatText, ← hsign]
  generalize hs : (signBytes neg).length = s
  by_cases hroom : precision n + s < 510
  · obtain ⟨k, hk⟩ : ∃ k, 510 = k + precision n + s := ⟨510 - precision n - s, by omega⟩
    have hfits := length_fixed_le_iff hp (k := k) (by omega) neg (x.mag_range hfloat hx).1
    rw [hs] at hfits
    rw [and_iff_right hroom, show 510 - s = k + precision n by omega, ← hfits]
    omega
  · refine ⟨fun h => absurd h ?_, fun h => absurd h.1 hroom⟩
    have hfront := length_digits_pos ((roundEven (mag * 10 ^ precision n)).natAbs / 10 ^ precision n)
    rw [length_fixed hp, hs]
    omega

theorem number_fits_of_le {neg : Bool} {mag : ℚ} (hx : x.number = .finite neg mag) (fuel : Nat)
    (lone : Nat → Nat) (h : precision n ≤ 200) :
    HoldsText (serializeString fuel lone rpArg (.full x.array)) (floatText (precision n) x.number) := by
  obtain ⟨hlow, hhigh⟩ := x.mag_range hfloat hx
  have hlen := length_fixed_le (precision_pos n) (by decide) neg hlow hhigh
  rw [serializeString_decimals hfloat hi hn, holdsText_sprintf, hx, floatText]
  omega

end Number

/-- `0` -/
def zeroDouble : RealScalar where
  cls := .double
  array := ⟨MxClass.double.id, 8, [1, 1], [0, 0, 0, 0, 0, 0, 0, 0], none, rfl, by simp⟩
  classId := rfl
  elementSize := rfl
  dims := rfl
  real := rfl
  notChar := by decide

theorem number_zeroDouble : zeroDouble.number = .finite false 0 := by
  have hbits : zeroDouble.number = Ieee.ofBits 11 52 0 := rfl
  rw [hbits, Ieee.ofBits]
  norm_num

theorem zero_fits :
    HoldsText (serializeString 0 (fun _ => 0xFFFD) ⟨[51], by simp⟩ (.full zeroDouble.array))
      (floatText 3 zeroDouble.number) := by
  refine (number_fits_iff (n := 3) rfl (by decide) rfl number_zeroDouble _ _).mpr ⟨by decide, ?_⟩
  calc
    (0 : ℚ) * 10 ^ 3 + 1 / 2 < 1 := by norm_num
    _ ≤ 10 ^ 510 := one_le_pow₀ (by norm_num)

/-- **`0` with 510 decimals does not fit.** -/
theorem zero_outside :
    zeroDouble.number = .finite false 0 ∧
      serializeString 0 (fun _ => 0xFFFD) ⟨[53, 49, 48], by simp⟩ (.full zeroDouble.array) = .outside ∧
      ¬HoldsText (serializeString 0 (fun _ => 0xFFFD) ⟨[53, 49, 48], by simp⟩ (.full zeroDouble.array))
        (floatText 510 zeroDouble.number) := by
  have hrun : serializeString 0 (fun _ => 0xFFFD) ⟨[53, 49, 48], by simp⟩ (.full zeroDouble.array)
      = sprintf (fixed 510 false 0) := by
    rw [serializeString_decimals (n := 510) rfl (by decide) rfl, number_zeroDouble]
    rfl
  have hlong : ¬(fixed 510 false 0).length < 512 := by
    have hfront := length_digits_pos ((roundEven (0 * 10 ^ 510)).natAbs / 10 ^ 510)
    rw [length_fixed (by decide)]
    omega
  have hout : sprintf (fixed 510 false 0) = .outside := if_neg hlong
  refine ⟨number_zeroDouble, hrun.trans hout, ?_⟩
  rw [hrun, hout]
  intro h
  obtain ⟨t, ht, -⟩ := h
  cases ht

/-! ### The format of a column -/

theorem length_formatText_le_iff (width : Nat) :
    (formatText width ++ [0]).length ≤ 10 ↔ width < 1000 := by
  have hdigits := length_digits_le_iff (n := width) (k := 3) (by decide)
  rw [length_formatText]
  omega

theorem formatFits_iff (clip : Bool) (f : MysqlField) : FormatFits clip f ↔ columnWidth clip f < 1000 :=
  length_digits_le_iff (by decide)

/-- A length with a set sign bit becomes a huge one. -/
theorem throughInt_lt_iff (n : Nat) : throughInt n < 1000 ↔ n % 2 ^ 32 < 1000 := by
  unfold throughInt toInt32
  split
  · omega
  · omega

theorem columnWidth_lt_iff (clip : Bool) (f : MysqlField) :
    columnWidth clip f < 1000 ↔ f.name.1.length % 2 ^ 32 < 1000 ∧ f.maxLength < 1000 := by
  have hdots : contstr.length = 3 := rfl
  have hlong : (if f.maxLength > throughInt f.name.1.length then f.maxLength
      else throughInt f.name.1.length) < 1000 ↔
        throughInt f.name.1.length < 1000 ∧ f.maxLength < 1000 := by
    split
    · omega
    · omega
  -- the dots are narrower than a thousand bytes
  have hclipped : ∀ len, (if clip && contstr.length > len then contstr.length else len) < 1000 ↔
      len < 1000 := by
    intro len
    split
    · next hclip =>
      have hshort := of_decide_eq_true (Bool.and_eq_true_iff.mp hclip).2
      omega
    · exact Iff.rfl
  rw [← throughInt_lt_iff, ← hlong]
  exact hclipped _

theorem fancyprint_ne_outside {res : ResultSet}
    (h : ∀ f ∈ res.fields, FormatFits (decide (nRowMax < res.numRows)) f) :
    fancyprint res ≠ .outside := by
  have hrows : ∀ i n, printRows res i n ≠ .outside := by
    intro i n
    rcases printRows_cases res i n with ⟨-, hok⟩ | ⟨-, herr⟩
    · rw [hok]
      simp
    · rw [herr]
      simp
  have hend : ∀ i n, (printRows res i n >>= fun _ => (.ok () : Result Unit)) ≠ .outside :=
    fun i n => Outcome.bind_ne_outside (hrows i n) fun _ _ => by simp
  unfold fancyprint
  rcases columnFormats_cases _ _ with ⟨-, fmts, hfmts⟩ | ⟨hover, -⟩
  · dsimp only
    rw [hfmts, Outcome.ok_bind]
    split
    · exact Outcome.bind_ne_outside (hrows _ _) fun _ _ => hend _ _
    · exact hend _ _
  · exact absurd h hover

/-- **When the formats fit their ten bytes.**  No column has a name or a value of a thousand bytes. -/
theorem fancyprint_fits_iff (res : ResultSet) :
    ((∀ f ∈ res.fields,
        (formatText (columnWidth (decide (nRowMax < res.numRows)) f) ++ [0]).length ≤ 10) ∧
      fancyprint res ≠ .outside) ↔
      ∀ f ∈ res.fields, f.name.1.length % 2 ^ 32 < 1000 ∧ f.maxLength < 1000 := by
  simp only [length_formatText_le_iff, columnWidth_lt_iff]
  constructor
  · intro h
    exact h.1
  · intro h
    refine ⟨h, fancyprint_ne_outside fun f hf => ?_⟩
    rw [formatFits_iff, columnWidth_lt_iff]
    exact h f hf

/-- One row with a value of a thousand bytes. -/
def thousandWide : ResultSet :=
  oneRow [{ plainField ⟨[119, 105, 100, 101], by simp⟩ .varString with maxLength := 1000 }]
    [some ⟨List.replicate 1000 97, []⟩] rfl

/-- **The format of a column of a thousand bytes does not fit.** -/
theorem thousandWide_outside :
    ¬(∀ f ∈ thousandWide.fields,
        (formatText (columnWidth (decide (nRowMax < thousandWide.numRows)) f) ++ [0]).length ≤ 10) ∧
      fancyprint thousandWide = .outside :=
  ⟨fun h => absurd (h _ List.mem_cons_self) (by decide), rfl⟩

/-! ### Four bytes for each byte -/

theorem uint_le (n : Nat) : uint n ≤ n := Nat.mod_le n _

theorem uint_lt (n : Nat) : uint n < 2 ^ 32 := Nat.mod_lt n (by decide)

theorem putCells_inside {result : Cells} {pos : Nat} {bs : Bytes}
    (h : ∀ k < bs.length, uint (pos + k) < result.length) :
    ∃ r, putCells result pos bs = .ok r ∧ r.length = result.length := by
  induction bs generalizing result pos with
  | nil => exact ⟨result, rfl, rfl⟩
  | cons b bs ih =>
    have hset : (result.set (uint pos) (some b)).length = result.length := List.length_set
    have hrest : ∀ k < bs.length, uint (pos + 1 + k) < (result.set (uint pos) (some b)).length := by
      intro k hk
      rw [hset, Nat.add_assoc, Nat.add_comm 1 k]
      exact h (k + 1) (Nat.succ_lt_succ hk)
    obtain ⟨r, hr, hlen⟩ := ih hrest
    have hfirst := h 0 (Nat.succ_pos _)
    rw [Nat.add_zero] at hfirst
    refine ⟨r, ?_, hlen.trans hset⟩
    rw [putCells, writeEntry_of_lt hfirst, Outcome.ok_bind, hr]

/-- The buffer keeps its four bytes for each of the `n` bytes, and the offset does not run ahead of the
counter, unless the counter wraps around. -/
structure InBuffer (n : Nat) (s : Hex2Char) : Prop where
  length : s.result.length = n * 4
  counter : s.a < 2 ^ 32
  range : n < 2 ^ 32 → s.offset ≤ s.a ∧ s.a ≤ n

section Buffer

variable {n : Nat} {s : Hex2Char}

theorem InBuffer.room (h : InBuffer n s) (ha : s.a < n) {k : Nat} (hk : k < 2) :
    uint (s.a + s.offset + k) < s.result.length := by
  rw [h.length]
  by_cases hn : n < 2 ^ 32
  · have hoffset := h.range hn
    have hle := uint_le (s.a + s.offset + k)
    omega
  · have hlt := uint_lt (s.a + s.offset + k)
    omega

theorem InBuffer.next (h : InBuffer n s) (ha : s.a < n) {r : Cells} (hr : r.length = s.result.length)
    {offset : Nat} (ho : offset ≤ s.offset + 1) : InBuffer n ⟨uint (s.a + 1), offset, r⟩ where
  length := hr.trans h.length
  counter := uint_lt (s.a + 1)
  range hn := by
    have hoffset := h.range hn
    rw [uint_eq (by omega)]
    dsimp only
    omega

/-- **A round stays inside the buffer**: a byte becomes one byte or two. -/
theorem InBuffer.step {val : Bytes} (hval : val.length = n) (h : InBuffer n s) (ha : s.a < n) :
    ∃ t, hex2charStep val s = .ok t ∧ InBuffer n t := by
  obtain ⟨c, hc⟩ : ∃ c, val[s.a]? = some c :=
    ⟨_, List.getElem?_eq_getElem (hval ▸ ha)⟩
  have hbyte := c.toNat_lt
  rw [hex2charStep, readByte_eq_ok.mpr hc, Outcome.ok_bind]
  dsimp only
  by_cases hone : c.toNat ≤ 0x7F
  · obtain ⟨r, hr, hlen⟩ : ∃ r, putCells s.result (s.a + s.offset) [c] = .ok r ∧
        r.length = s.result.length :=
      putCells_inside fun k (hk : k < 1) => h.room ha (by omega)
    rw [if_pos hone, hr]
    exact ⟨_, rfl, h.next ha hlen (Nat.le_succ _)⟩
  · obtain ⟨r, hr, hlen⟩ : ∃ r, putCells s.result (s.a + s.offset)
        [UInt8.ofNat ((c.toNat >>> 6) + 0xC0), UInt8.ofNat ((c.toNat &&& 0x3F) + 0x80)] = .ok r ∧
          r.length = s.result.length :=
      putCells_inside fun k (hk : k < 2) => h.room ha hk
    rw [if_neg hone, if_pos (by omega), hr]
    exact ⟨_, rfl, h.next ha hlen (uint_le _)⟩

theorem InBuffer.terminator (h : InBuffer n s) (hend : n ≤ s.a) (hn : n ≠ 0) :
    n + s.offset < s.result.length := by
  have hcounter := h.counter
  have hoffset := h.range (by omega)
  rw [h.length]
  omega

theorem inBuffer_start (n : Nat) : InBuffer n ⟨0, 0, List.replicate (n * 4) none⟩ where
  length := List.length_replicate
  counter := Nat.two_pow_pos 32
  range _ := ⟨Nat.le_refl 0, Nat.zero_le n⟩

theorem hex2char_ne_outside {val : Bytes} (hval : val.length = n) (hn : n ≠ 0) (fuel : Nat) :
    hex2char fuel val n ≠ .outside := by
  have hstep : ∀ s t, InBuffer n s → Hex2Char.more n s = true → hex2charStep val s = .ok t →
      InBuffer n t := by
    intro s t hs hmore ht
    obtain ⟨t', ht', hkeep⟩ := hs.step hval (of_decide_eq_true hmore)
    cases ht'.symm.trans ht
    exact hkeep
  apply Outcome.bind_ne_outside
  · refine Outcome.loop_ne_outside hstep ?_ fuel (inBuffer_start n)
    intro s hs hmore hout
    obtain ⟨t, ht, -⟩ := hs.step hval (of_decide_eq_true hmore)
    cases ht.symm.trans hout
  · intro s hs
    obtain ⟨hkeep, hmore⟩ := Outcome.loop_ok_keep hstep hs (inBuffer_start n)
    have hend : n ≤ s.a := Nat.le_of_not_lt (of_decide_eq_false hmore)
    rw [writeEntry_of_lt (hkeep.terminator hend hn), Outcome.ok_bind]
    simp

end Buffer

/-- **When `hex2char` stays inside its buffer**: the value that was fetched is neither NULL nor empty. -/
theorem hex2char_inside_iff (s : Option FieldValue) :
    (∀ fuel, hex2char fuel ((s.map FieldValue.bytes).getD []) (fetchedLength s) ≠ .outside) ↔
      fetchedLength s ≠ 0 := by
  have hlen : ((s.map FieldValue.bytes).getD []).length = fetchedLength s := by
    cases s with
    | none => rfl
    | some v => rfl
  constructor
  · intro h hzero
    have hnil := List.length_eq_zero_iff.mp (hlen.trans hzero)
    rw [hnil, hzero] at h
    exact h 1 rfl
  · intro h fuel
    exact hex2char_ne_outside hlen h fuel

/-- **An empty value has no room for its terminator**, and neither has NULL. -/
theorem hex2char_empty_outside :
    fetchedLength (some ⟨[], []⟩) = 0 ∧ hex2char 1 [] (fetchedLength (some ⟨[], []⟩)) = .outside ∧
      hex2char 1 [] (fetchedLength none) = .outside := ⟨rfl, rfl, rfl⟩

end Mym
