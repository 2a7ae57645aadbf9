import Mym.Arguments
import Mym.Binary
import Mym.Lib.Decimal
import Mym.Lib.Ieee
import Mym.Text

/-!
# The string serializer

`serializeString`, which prepares the text for a `{S}` placeholder: `char2hex` of a char array, or what
`sprintf` writes for a scalar.  `rpArg` is the text inside the placeholder.

What `mxArrayToString` makes of a surrogate that stands alone is the parameter `lone`.  A double is
its exact value (`Ieee`), and a cast of it to `int` is undefined outside the range of `int`.
-/

namespace Mym

/-! ### Scalars -/

/-- A two's complement number of `w` bits. -/
def ofTwos (w n : Nat) : Int := if n < 2 ^ (w - 1) then n else n - 2 ^ w

/-- A cast from `double` to `int`. -/
def castInt (x : Ieee) : Result Int :=
  match x.trunc with
  | none => .undefined
  | some n => if -2 ^ 31 ≤ n ∧ n < 2 ^ 31 then .ok n else .undefined

/-- `atoi` -/
def atoi (s : CStr) : Result Int :=
  let n := parseInt (s.1.dropWhile isspace)
  if -2 ^ 31 ≤ n ∧ n < 2 ^ 31 then .ok n else .undefined

/-- How many decimals `%.*f` prints for `n`, or `%.6f` in place of 0. -/
def precision (n : Int) : Nat := if n ≤ 0 then 6 else n.toNat

theorem precision_pos (n : Int) : 0 < precision n := by
  unfold precision
  split
  · decide
  · omega

/-- `nan` -/
def nanText : Bytes := [110, 97, 110]
/-- `inf` -/
def infText : Bytes := [105, 110, 102]

def floatText (p : Nat) : Ieee → Bytes
  | .nan neg => signBytes neg ++ nanText
  | .inf neg => signBytes neg ++ infText
  | .finite neg mag => fixed p neg mag

namespace MxArray

/-- `mxIsLogical` -/
def isLogical (v : MxArray) : Bool := v.classId == MxClass.logical.id

/-- `mxIsComplex` -/
def isComplex : MxArray → Bool
  | .full a => a.im.isSome
  | .sparse a => a.im.isSome
  | _ => false

/-- `mxGetData` -/
def realData : MxArray → Result Bytes
  | .full a => .ok a.re
  | .sparse a => .ok a.re
  | _ => .undefined

end MxArray

/-- `value` and `conv_to_int` -/
def scalarValue (v : MxArray) : Result (Ieee × Bool) := do
  let mem ← v.realData
  if v.classId = MxClass.double.id then do
    let n ← readWord mem 0 8
    .ok (Ieee.ofBits 11 52 n, false)
  else if v.classId = MxClass.single.id then do
    let n ← readWord mem 0 4
    .ok (Ieee.ofBits 8 23 n, false)
  else if v.classId = MxClass.int8.id then do
    let n ← readWord mem 0 1
    .ok (Ieee.ofInt (ofTwos 8 n), true)
  else if v.classId = MxClass.int32.id then do
    let n ← readWord mem 0 4
    .ok (Ieee.ofInt (ofTwos 32 n), true)
  else if v.classId = MxClass.uint8.id then do
    let n ← readWord mem 0 1
    .ok (Ieee.ofInt n, true)
  else if v.classId = MxClass.uint32.id then do
    let n ← readWord mem 0 4
    .ok (Ieee.ofInt n, true)
  else if v.classId = MxClass.logical.id then do
    let n ← readWord mem 0 1
    .ok (Ieee.ofInt (if n ≠ 0 then 1 else 0), true)
  else .raised .unsupportedScalar

/-! ### The serializer -/

/-- What `serializeString` hands back: its buffer with the place of the NUL in it, and `rnBytes`. -/
structure StringText where
  buffer : Converted
  rnBytes : Nat
  deriving DecidableEq

/-- `sprintf` into the zeroed buffer of 512 bytes. -/
def sprintf (text : Bytes) : Result StringText :=
  if text.length < 512 then
    .ok ⟨⟨text.map some ++ List.replicate (512 - text.length) (some 0), text.length⟩, text.length⟩
  else .outside

/-- `i` -/
def phInteger : UInt8 := 105

/-- What is printed for `value`. -/
def printScalar (rpArg : CStr) (value : Ieee) (convToInt : Bool) : Result StringText :=
  let toInt := rpArg.1.head? == some phInteger
  let value := if toInt then value.floor else value
  if convToInt || toInt then do
    let n ← castInt value
    sprintf (numeral n)
  else do
    let n ← atoi rpArg
    sprintf (floatText (precision n) value)

/-- `mxArrayToString`: UTF-8 with a NUL behind it. -/
def mxArrayToString (lone : Nat → Nat) : MxArray → Result Bytes
  | .full a => .ok (encodePoints (decodeUnits lone (toWords 2 a.dims.prod a.re)) ++ [0])
  | _ => .undefined

def serializeString (fuel : Nat) (lone : Nat → Nat) (rpArg : CStr) (v : MxArray) :
    Result StringText := do
  let m ← readEntry v.dims 0
  let n ← readEntry v.dims 1
  let length := max m n
  if v.dims.prod = 0 then .ok ⟨⟨[], 0⟩, 0⟩
  else if v.isChar then
    if v.dims.length ≠ 2 ∨ ¬(m = 1 ∨ n = 1) then .raised .onlyCharArray
    else do
      let mem ← mxArrayToString lone v
      let text ← readCStr mem 0
      let buffer ← char2hex fuel text.1 text.1.length (length + 1)
      .ok ⟨buffer, length⟩
  else if v.isNumeric || v.isLogical then
    if length ≠ 1 then .raised .onlyScalars
    else if v.isComplex then .raised .complexScalar
    else do
      let x ← scalarValue v
      printScalar rpArg x.1 x.2
  else .raised .onlyStringOrScalar

/-! ### Char arrays -/

/-- A char array with one row or one column, and at least one character. -/
structure CharVector where
  array : FullArray
  isChar : array.classId = MxClass.char.id
  vector : ∃ m, 0 < m ∧ (array.dims = [1, m] ∨ array.dims = [m, 1])

namespace CharVector

/-- Its UTF-16 code units. -/
def units (a : CharVector) : List Nat := toWords 2 a.array.dims.prod a.array.re

theorem length_units (a : CharVector) : a.units.length = a.array.dims.prod := length_toWords _ _ _

theorem dims_spec (a : CharVector) : ∃ m n, a.array.dims = [m, n] ∧ (m = 1 ∨ n = 1) ∧
    max m n = a.units.length ∧ a.units.length ≠ 0 := by
  rw [length_units]
  obtain ⟨m, hm, hdims | hdims⟩ := a.vector
  · refine ⟨1, m, hdims, Or.inl rfl, ?_, ?_⟩
    · rw [hdims, List.prod_pair]
      omega
    · rw [hdims, List.prod_pair]
      omega
  · refine ⟨m, 1, hdims, Or.inr rfl, ?_, ?_⟩
    · rw [hdims, List.prod_pair]
      omega
    · rw [hdims, List.prod_pair]
      omega

/-- The UTF-8 text up to the first NUL. -/
def text (lone : Nat → Nat) (a : CharVector) : Bytes :=
  encodePoints ((decodeUnits lone a.units).takeWhile (· ≠ 0))

end CharVector

/-- A byte of a text is 0 where its code point is. -/
theorem encodePoint_no_nul {v : Nat} (hv : IsPoint v) (h : v ≠ 0) :
    ∀ b ∈ encodePoint v, decide (b ≠ 0) = true := by
  intro b hb
  rw [decide_eq_true_iff]
  rintro rfl
  obtain ⟨c, t, hc, hwidth, -, ht⟩ := encodePoint_shape hv
  rw [hc, List.mem_cons] at hb
  rcases hb with rfl | hb
  · have hone : pointWidth v = 1 := hwidth.symm
    have hlow : v ≤ 0x7F := by
      unfold pointWidth at hone
      grind
    rw [encodePoint_one hlow] at hc
    have hzero := congrArg UInt8.toNat (List.cons.inj hc).1
    rw [toNat_ofNat_byte (by omega)] at hzero
    exact h hzero
  · exact absurd (ht 0 hb).1 (by decide)

theorem takeWhile_encodePoints {vs : List Nat} (hv : ∀ v ∈ vs, IsPoint v) :
    (encodePoints vs).takeWhile (· ≠ 0) = encodePoints (vs.takeWhile (· ≠ 0)) := by
  induction vs with
  | nil => rfl
  | cons v vs ih =>
    rw [List.forall_mem_cons] at hv
    rw [encodePoints_cons]
    by_cases h : v = 0
    · subst h
      rfl
    · rw [List.takeWhile_cons_of_pos (by simpa using h), encodePoints_cons,
        List.takeWhile_append_of_pos (encodePoint_no_nul hv.1 h), ih hv.2]

theorem readCStr_textOf {mem : Bytes} (h : (0 : UInt8) ∈ mem) :
    readCStr (ε := MexError) mem 0 = .ok (textOf mem) := by
  obtain ⟨s, t, rfl, hs⟩ := List.eq_append_cons_of_mem h
  have htext : (textOf (s ++ 0 :: t)).1 = s := takeWhile_ne_zero_append hs
  apply readCStr_of_at
  rw [htext, List.append_cons]
  exact at_start _ _

theorem textOf_nul (bs : Bytes) : textOf (bs ++ [0]) = textOf bs := by
  apply Subtype.ext
  show (bs ++ [0]).takeWhile (· ≠ 0) = bs.takeWhile (· ≠ 0)
  induction bs with
  | nil => rfl
  | cons b bs ih => rw [List.cons_append, List.takeWhile_cons, List.takeWhile_cons, ih]

/-- Each unit of an array is a 16-bit number. -/
theorem CharVector.units_lt (a : CharVector) : ∀ u ∈ a.units, u < 2 ^ 16 := toWords_lt 2 _ _

section

variable {lone : Nat → Nat} (hlone : ∀ u, 0 < lone u ∧ lone u ≤ 0xFFFF)

include hlone

theorem serializeString_char (fuel : Nat) (rpArg : CStr) (a : CharVector) :
    serializeString fuel lone rpArg (.full a.array)
      = char2hex fuel (a.text lone) (a.text lone).length (a.units.length + 1) >>= fun buffer =>
        .ok ⟨buffer, a.units.length⟩ := by
  obtain ⟨m, n, hdims, hone, hmax, hpos⟩ := a.dims_spec
  have hpoints : ∀ v ∈ decodeUnits lone a.units, IsPoint v :=
    isPoint_decodeUnits (fun u => (hlone u).2) a.units_lt
  have htext : (textOf (encodePoints (decodeUnits lone a.units))).1 = a.text lone :=
    takeWhile_encodePoints hpoints
  have hd : MxArray.dims (.full a.array) = [m, n] := hdims
  have hm : readEntry (ε := MexError) [m, n] 0 = .ok m := rfl
  have hn : readEntry (ε := MexError) [m, n] 1 = .ok n := rfl
  have hprod : [m, n].prod ≠ 0 := by
    rw [← hdims, ← a.length_units]
    exact hpos
  have hchar : MxArray.isChar (.full a.array) = true := MxArray.isChar_iff.mpr a.isChar
  have hlen : ¬([m, n].length ≠ 2 ∨ ¬(m = 1 ∨ n = 1)) := by
    intro hor
    rcases hor with h | h
    · exact h rfl
    · exact h hone
  rw [serializeString, hd, hm, Outcome.ok_bind, hn, Outcome.ok_bind, if_neg hprod, if_pos hchar,
    if_neg hlen, hmax]
  show readCStr (encodePoints (decodeUnits lone a.units) ++ [0]) 0 >>= _ = _
  rw [readCStr_textOf (by simp), Outcome.ok_bind, textOf_nul, htext]

/-- The text has a character for each unit if no NUL ends it and no two units are one character. -/
theorem length_text_eq_iff (us : List Nat) :
    ((decodeUnits lone us).takeWhile (· ≠ 0)).length = us.length ↔ 0 ∉ us ∧ NoPair us := by
  have hsub := List.takeWhile_sublist (fun v => decide (v ≠ 0)) (l := decodeUnits lone us)
  have hunits := length_decodeUnits_le lone us
  rw [← zero_mem_decodeUnits_iff (fun u => (hlone u).1) us, ← length_decodeUnits_eq_iff lone us]
  refine ⟨?_, ?_⟩
  · intro h
    have hle := hsub.length_le
    have hself := hsub.eq_of_length (by omega)
    refine ⟨fun hzero => ?_, by omega⟩
    have hne := List.takeWhile_eq_self_iff.mp hself 0 hzero
    exact absurd hne (by decide)
  · intro hw
    obtain ⟨hzero, hlen⟩ := hw
    rw [List.takeWhile_eq_self_iff.mpr, hlen]
    intro v hv
    rw [decide_eq_true_iff]
    rintro rfl
    exact hzero hv

theorem isPoint_text (a : CharVector) :
    ∀ v ∈ (decodeUnits lone a.units).takeWhile (· ≠ 0), IsPoint v := by
  intro v hv
  exact isPoint_decodeUnits (fun u => (hlone u).2) a.units_lt v
    ((List.takeWhile_sublist _).subset hv)

omit hlone in
variable (lone) in
theorem length_text_le (us : List Nat) :
    ((decodeUnits lone us).takeWhile (· ≠ 0)).length ≤ us.length :=
  Nat.le_trans (List.takeWhile_sublist _).length_le (length_decodeUnits_le lone us)

/-- What becomes of a text that raises no error. -/
theorem char2hex_text (a : CharVector) (hno : ¬CaughtSurrogate (a.text lone))
    (hlen : (a.text lone).length < 2 ^ 32) :
    ∃ fuel c, char2hex fuel (a.text lone) (a.text lone).length (a.units.length + 1) = .ok c ∧
      c.length = ((decodeUnits lone a.units).takeWhile (· ≠ 0)).length := by
  have hpoints := isPoint_text hlone a
  obtain ⟨room, hroom⟩ := Nat.exists_eq_add_of_le (length_text_le lone a.units)
  have heq := char2hex_eq hpoints (not_surrogate_of_not_caught hpoints hno hlen) hlen room
  rw [← Nat.add_assoc, ← hroom] at heq
  exact ⟨_, _, heq, rfl⟩

/-- **When `rnBytes` is what was written.**  There is a byte for each unit of the array if no NUL ends
the text early, no two units are one character, and the text can be counted; or else a surrogate that
stands alone is an error. -/
theorem rnBytes_iff (rpArg : CStr) (a : CharVector) :
    ((∃ fuel, serializeString fuel lone rpArg (.full a.array) = .raised .invalidUtf8) ∨
      ∃ fuel t, serializeString fuel lone rpArg (.full a.array) = .ok t ∧
        t.buffer.length = t.rnBytes) ↔
    CaughtSurrogate (a.text lone) ∨
      0 ∉ a.units ∧ NoPair a.units ∧ (a.text lone).length < 2 ^ 32 := by
  simp only [serializeString_char hlone]
  by_cases hcaught : CaughtSurrogate (a.text lone)
  · refine iff_of_true (Or.inl ?_) (Or.inl hcaught)
    obtain ⟨fuel, h⟩ := char2hex_raised (isPoint_text hlone a)
      (Nat.le_succ_of_le (length_text_le lone a.units)) hcaught
    refine ⟨fuel, ?_⟩
    rw [CharVector.text, h]
    rfl
  rw [or_iff_right hcaught, or_iff_right]
  · refine ⟨?_, ?_⟩
    · intro hw
      obtain ⟨fuel, t, h, hsame⟩ := hw
      obtain ⟨c, hc, h⟩ := Outcome.bind_eq_ok h
      cases h
      have hlen : (a.text lone).length < 2 ^ 32 := by
        by_contra hge
        exact char2hex_ne_ok (Nat.not_lt.mp hge) fuel _ c hc
      obtain ⟨n, c', hc', hcount⟩ := char2hex_text hlone a hcaught hlen
      cases char2hex_unique hc hc' (by simp) (by simp)
      obtain ⟨hzero, hpair⟩ := (length_text_eq_iff hlone a.units).mp (hcount.symm.trans hsame)
      exact ⟨hzero, hpair, hlen⟩
    · intro hw
      obtain ⟨hzero, hpair, hlen⟩ := hw
      obtain ⟨fuel, c, hc, hcount⟩ := char2hex_text hlone a hcaught hlen
      refine ⟨fuel, ⟨c, a.units.length⟩, ?_, ?_⟩
      · rw [hc]
        rfl
      · exact hcount.trans ((length_text_eq_iff hlone a.units).mpr ⟨hzero, hpair⟩)
  · intro hw
    obtain ⟨fuel, h⟩ := hw
    refine Outcome.bind_ne_raised (char2hex_ne_raised hcaught fuel _ .invalidUtf8) ?_ h
    intro c _ hc
    cases hc

/-- The serializer has one ending, whatever the fuel. -/
theorem serializeString_unique {m n : Nat} {rpArg : CStr} {a : CharVector} {x y : Result StringText}
    (h : serializeString m lone rpArg (.full a.array) = x)
    (h' : serializeString n lone rpArg (.full a.array) = y) (hx : x ≠ .diverged)
    (hy : y ≠ .diverged) : x = y := by
  rw [serializeString_char hlone] at h h'
  subst h h'
  rw [char2hex_unique rfl rfl]
  · intro hd
    rw [hd] at hx
    exact hx rfl
  · intro hd
    rw [hd] at hy
    exact hy rfl

end

/-- The array `[97 0]`, a letter and `char(0)`. -/
def nulText : CharVector where
  array := ⟨MxClass.char.id, 2, [1, 2], [97, 0, 0, 0], none, rfl, by simp⟩
  isChar := rfl
  vector := ⟨2, by decide, Or.inl rfl⟩

/-- The letter alone. -/
def letterText : CharVector where
  array := ⟨MxClass.char.id, 2, [1, 1], [97, 0], none, rfl, by simp⟩
  isChar := rfl
  vector := ⟨1, by decide, Or.inl rfl⟩

theorem rnBytes_letter : (0 ∉ letterText.units ∧ NoPair letterText.units ∧
      (letterText.text fun _ => 0xFFFD).length < 2 ^ 32) ∧
    ((∃ fuel, serializeString fuel (fun _ => 0xFFFD) ⟨[], by simp⟩
        (.full letterText.array) = .raised .invalidUtf8) ∨
      ∃ fuel t, serializeString fuel (fun _ => 0xFFFD) ⟨[], by simp⟩ (.full letterText.array) = .ok t ∧
        t.buffer.length = t.rnBytes) := by
  have hside : 0 ∉ letterText.units ∧ NoPair letterText.units ∧
      (letterText.text fun _ => 0xFFFD).length < 2 ^ 32 :=
    ⟨by decide, by decide, by decide⟩
  exact ⟨hside, (rnBytes_iff (fun _ => by decide) ⟨[], by simp⟩ letterText).mpr (Or.inr hside)⟩

/-- **A NUL in the array** ends what is written, but not what is counted. -/
theorem rnBytes_nul :
    ¬((∃ fuel, serializeString fuel (fun _ => 0xFFFD) ⟨[], by simp⟩ (.full nulText.array)
        = .raised .invalidUtf8) ∨
      ∃ fuel t, serializeString fuel (fun _ => 0xFFFD) ⟨[], by simp⟩ (.full nulText.array) = .ok t ∧
        t.buffer.length = t.rnBytes) := by
  have hrun : serializeString 2 (fun _ => 0xFFFD) ⟨[], by simp⟩ (.full nulText.array)
      = .ok ⟨⟨[some 97, some 0, none], 1⟩, 2⟩ := by
    rfl
  intro hor
  rcases hor with ⟨fuel, h⟩ | ⟨fuel, t, h, hsame⟩
  · cases serializeString_unique (fun _ => by decide) h hrun (by simp) (by simp)
  · cases serializeString_unique (fun _ => by decide) h hrun (by simp) (by simp)
    cases hsame

/-! ### Real scalars -/

/-- The classes that are printed. -/
def MxClass.printable : MxClass → Bool
  | double | single | int8 | int32 | uint8 | uint32 | logical => true
  | _ => false

def MxClass.isFloat : MxClass → Bool
  | double | single => true
  | _ => false

/-- A real scalar that is a number or a logical. -/
structure RealScalar where
  cls : MxClass
  array : FullArray
  classId : array.classId = cls.id
  elementSize : array.elementSize = cls.elementSize
  dims : array.dims = [1, 1]
  real : array.im = none
  notChar : cls ≠ .char

namespace RealScalar

/-- The number it holds. -/
def number (x : RealScalar) : Ieee :=
  let n := leNat x.array.re
  match x.cls with
  | .double => Ieee.ofBits 11 52 n
  | .single => Ieee.ofBits 8 23 n
  | .logical => Ieee.ofInt (if n ≠ 0 then 1 else 0)
  | .int8 | .int16 | .int32 | .int64 => Ieee.ofInt (ofTwos (8 * x.array.elementSize) n)
  | .uint8 | .uint16 | .uint32 | .uint64 | .char => Ieee.ofInt n

theorem re_length (x : RealScalar) : x.array.re.length = x.cls.elementSize := by
  rw [x.array.re_length, x.elementSize, x.dims, List.prod_pair, Nat.mul_one]

theorem readWord_re (x : RealScalar) {w : Nat} (hw : x.cls.elementSize = w) :
    readWord (ε := MexError) x.array.re 0 w = .ok (leNat x.array.re) := by
  have hlen := x.re_length
  refine readWord_eq_ok.mpr ⟨Or.inr (by omega), ?_⟩
  rw [wordAt, List.drop_zero, List.take_of_length_le (by omega)]

/-- The value the serializer reads is the number. -/
theorem scalarValue_eq (x : RealScalar) : scalarValue (.full x.array) =
    if x.cls.printable then .ok (x.number, !x.cls.isFloat) else .raised .unsupportedScalar := by
  have hclass : MxArray.classId (.full x.array) = x.cls.id := x.classId
  have hdata : MxArray.realData (.full x.array) = .ok x.array.re := rfl
  have hread := fun w hw => x.readWord_re (w := w) hw
  have hnot := x.notChar
  have hsize := x.elementSize
  rw [scalarValue, hdata, Outcome.ok_bind, hclass, number]
  generalize x.cls = c at *
  cases c with
  | char => exact absurd rfl hnot
  | double => rw [hread 8 rfl]; rfl
  | single => rw [hread 4 rfl]; rfl
  | logical => rw [hread 1 rfl]; rfl
  | int8 => rw [hread 1 rfl, hsize]; rfl
  | int32 => rw [hread 4 rfl, hsize]; rfl
  | uint8 => rw [hread 1 rfl]; rfl
  | uint32 => rw [hread 4 rfl]; rfl
  | _ => rfl

theorem serializeString_scalar (x : RealScalar) (fuel : Nat) (lone : Nat → Nat) (rpArg : CStr) :
    serializeString fuel lone rpArg (.full x.array) = if x.cls.printable then
      printScalar rpArg x.number (!x.cls.isFloat) else .raised .unsupportedScalar := by
  have hdims : MxArray.dims (.full x.array) = [1, 1] := x.dims
  have hclass : MxArray.classId (.full x.array) = x.cls.id := x.classId
  have hone : readEntry (ε := MexError) [1, 1] 0 = .ok 1 := rfl
  have hone' : readEntry (ε := MexError) [1, 1] 1 = .ok 1 := rfl
  have hnot := x.notChar
  have hchar : ¬MxArray.isChar (.full x.array) = true := by
    rw [MxArray.isChar_iff, hclass]
    generalize x.cls = c at *
    cases c with
    | char => exact absurd rfl hnot
    | _ => decide
  have hnumber : (MxArray.isNumeric (.full x.array) || MxArray.isLogical (.full x.array)) = true := by
    rw [MxArray.isNumeric, MxArray.isLogical, hclass]
    generalize x.cls = c at *
    cases c with
    | char => exact absurd rfl hnot
    | _ => rfl
  have hreal : ¬MxArray.isComplex (.full x.array) = true := by
    show ¬x.array.im.isSome = true
    rw [x.real]
    decide
  rw [serializeString, hdims, hone, Outcome.ok_bind, hone', Outcome.ok_bind, if_neg (by decide),
    if_neg hchar, if_pos hnumber, if_neg (by decide), if_neg hreal, x.scalarValue_eq]
  split
  · rfl
  · rfl

theorem number_of_not_float (x : RealScalar) (h : x.cls.isFloat = false) :
    ∃ n, x.number = Ieee.ofInt n := by
  have hnot := x.notChar
  rw [number]
  generalize x.cls = c at *
  cases c with
  | char => exact absurd rfl hnot
  | double => cases h
  | single => cases h
  | _ => exact ⟨_, rfl⟩

end RealScalar

theorem castInt_of_trunc {x : Ieee} {n : Int} (h : x.trunc = some n) :
    castInt x = if -2 ^ 31 ≤ n ∧ n < 2 ^ 31 then .ok n else .undefined := by
  rw [castInt, h]

theorem sprintf_of_lt {text : Bytes} (h : text.length < 512) : sprintf text =
    .ok ⟨⟨text.map some ++ List.replicate (512 - text.length) (some 0), text.length⟩,
      text.length⟩ := if_pos h

theorem holds_sprintf {text : Bytes} (h : text.length < 512) : Converted.Holds
    ⟨text.map some ++ List.replicate (512 - text.length) (some 0), text.length⟩ text := by
  obtain ⟨k, hk⟩ : ∃ k, 512 - text.length = k + 1 := ⟨511 - text.length, by omega⟩
  refine ⟨rfl, List.replicate k (some 0), ?_⟩
  rw [hk, List.replicate_succ, List.append_assoc]
  rfl

/-- The text is the decimal numeral of `n`, and read back it is `n`. -/
def WritesInteger (r : Result StringText) (n : Int) : Prop :=
  ∃ t text, r = .ok t ∧ t.buffer.Holds text ∧ t.rnBytes = text.length ∧ text = numeral n ∧
    parseInt text = n

/-- A number that is printed as an `int` is cast to one. -/
theorem printScalar_int {rpArg : CStr} {x : Ieee} {convToInt : Bool} {n : Int}
    (h : (convToInt || rpArg.1.head? == some phInteger) = true)
    (hn : (if rpArg.1.head? == some phInteger then x.floor else x).trunc = some n) :
    printScalar rpArg x convToInt
      = if -2 ^ 31 ≤ n ∧ n < 2 ^ 31 then sprintf (numeral n) else .undefined := by
  rw [printScalar, if_pos h, castInt_of_trunc hn]
  split
  · rfl
  · rfl

theorem writesInteger_int (n : Int) :
    WritesInteger (if -2 ^ 31 ≤ n ∧ n < 2 ^ 31 then sprintf (numeral n) else .undefined) n ↔
      -2 ^ 31 ≤ n ∧ n < 2 ^ 31 := by
  refine ⟨?_, ?_⟩
  · intro hw
    obtain ⟨t, text, h, -⟩ := hw
    by_contra hrange
    rw [if_neg hrange] at h
    cases h
  · intro hrange
    have hlen := length_numeral_le (n := n) (k := 10) (by decide) (by omega)
    rw [if_pos hrange, sprintf_of_lt (by omega)]
    exact ⟨_, numeral n, rfl, holds_sprintf (by omega), rfl, rfl, parseInt_numeral n⟩

/-- **Which scalars are written as the integer they are.**  The scalar is of an integer class or the
placeholder asks for an integer; it is printed when the class is one that is supported, and printed
right when the integer is an `int`. -/
theorem writesInteger_iff (x : RealScalar) (fuel : Nat) (lone : Nat → Nat) {rpArg : CStr} {q : ℚ}
    (hq : x.number.value = some q)
    (hint : (x.cls.printable = true ∧ x.cls.isFloat = false) ∨ rpArg.1.head? = some phInteger) :
    WritesInteger (serializeString fuel lone rpArg (.full x.array)) ⌊q⌋ ↔
      x.cls.printable = true ∧ -2 ^ 31 ≤ ⌊q⌋ ∧ ⌊q⌋ < 2 ^ 31 := by
  rw [x.serializeString_scalar]
  by_cases hprint : x.cls.printable = true
  · have hconv : (!x.cls.isFloat || rpArg.1.head? == some phInteger) = true := by
      rcases hint with ⟨-, hfloat⟩ | hi
      · rw [hfloat]
        rfl
      · rw [hi, Bool.or_eq_true]
        exact Or.inr rfl
    have htrunc : (if rpArg.1.head? == some phInteger then x.number.floor else x.number).trunc
        = some ⌊q⌋ := by
      split
      · exact Ieee.trunc_floor hq
      · next hi =>
        -- an integer class, so the number is an integer
        have hfloat : x.cls.isFloat = false := by
          rcases hint with ⟨-, hfloat⟩ | hhead
          · exact hfloat
          · exact absurd (beq_iff_eq.mpr hhead) hi
        obtain ⟨n, hn⟩ := x.number_of_not_float hfloat
        rw [hn, Ieee.value_ofInt] at hq
        cases hq
        rw [hn, Ieee.trunc_ofInt, Int.floor_intCast]
    rw [if_pos hprint, printScalar_int hconv htrunc, writesInteger_int, and_iff_right hprint]
  · rw [if_neg hprint]
    refine ⟨?_, fun h => absurd h.1 hprint⟩
    intro hw
    obtain ⟨t, text, h, -⟩ := hw
    cases h

/-- `int8(-3)` -/
def minusThree : RealScalar where
  cls := .int8
  array := ⟨MxClass.int8.id, 1, [1, 1], [253], none, rfl, by simp⟩
  classId := rfl
  elementSize := rfl
  dims := rfl
  real := rfl
  notChar := by decide

theorem value_minusThree : minusThree.number.value = some ((-3 : Int) : ℚ) := by
  have hnumber : minusThree.number = Ieee.ofInt (-3) := rfl
  rw [hnumber, Ieee.value_ofInt]

theorem writesInteger_minusThree :
    WritesInteger (serializeString 0 (fun _ => 0xFFFD) ⟨[], by simp⟩ (.full minusThree.array))
      ⌊((-3 : Int) : ℚ)⌋ :=
  (writesInteger_iff minusThree 0 _ value_minusThree (Or.inl ⟨rfl, rfl⟩)).mpr
    ⟨rfl, by rw [Int.floor_intCast]; decide⟩

/-- `uint32(2 ^ 31)` -/
def twoToThe31 : RealScalar where
  cls := .uint32
  array := ⟨MxClass.uint32.id, 4, [1, 1], [0, 0, 0, 128], none, rfl, by simp⟩
  classId := rfl
  elementSize := rfl
  dims := rfl
  real := rfl
  notChar := by decide

/-- **`uint32(2 ^ 31)` is not written**: its cast to `int` is undefined. -/
theorem writesInteger_fails :
    twoToThe31.number.value = some (2 ^ 31) ∧
      serializeString 0 (fun _ => 0xFFFD) ⟨[], by simp⟩ (.full twoToThe31.array) = .undefined ∧
      ¬WritesInteger (serializeString 0 (fun _ => 0xFFFD) ⟨[], by simp⟩ (.full twoToThe31.array))
        (2 ^ 31) := by
  have hnumber : twoToThe31.number = Ieee.ofInt (2 ^ 31) := rfl
  have hrun : serializeString 0 (fun _ => 0xFFFD) ⟨[], by simp⟩ (.full twoToThe31.array)
      = .undefined := by
    have hprint : twoToThe31.cls.printable = true := rfl
    have htrunc : (if (⟨[], by simp⟩ : CStr).1.head? == some phInteger then twoToThe31.number.floor
        else twoToThe31.number).trunc = some (2 ^ 31) := by
      rw [hnumber]
      exact Ieee.trunc_ofInt _
    rw [twoToThe31.serializeString_scalar, if_pos hprint, printScalar_int rfl htrunc]
    rfl
  refine ⟨?_, hrun, ?_⟩
  · rw [hnumber, Ieee.value_ofInt]
    norm_num
  · intro hw
    obtain ⟨t, text, h, -⟩ := hw
    rw [hrun] at h
    cases h

end Mym
