import Mym.Runs
import Mym.SerializeString

/-!
# Strings from MATLAB

`getstring` copies every char array that the program is given: commands, queries, hosts, users, passwords
and flags.  `copyString` is what it does with its buffer.  The buffer has the bytes of the UTF-16 units and
one more, and `mxGetString` writes UTF-8 to it, where a character has one byte to four.

`getstring_iff` says which arrays are copied whole, and which of them are read in full; for any other the
error is raised (`copyString_raised_iff`).
-/

namespace Mym

/-- A char array of any shape. -/
structure CharArray where
  array : FullArray
  isChar : array.classId = MxClass.char.id

/-- Its UTF-16 code units. -/
def CharArray.units (a : CharArray) : List Nat := toWords 2 a.array.dims.prod a.array.re

/-- What `mxArrayToString` makes of them, without the NUL. -/
def CharArray.text (lone : Nat → Nat) (a : CharArray) : Bytes :=
  encodePoints (decodeUnits lone a.units)

namespace MxArray

/-- `mxGetM` -/
def getM (v : MxArray) : Nat := v.dims.headD 1

/-- `mxGetN` -/
def getN (v : MxArray) : Nat := v.dims.tail.prod

theorem getM_mul_getN (v : MxArray) : v.getM * v.getN = v.dims.prod := by
  rw [getM, getN]
  cases v.dims with
  | nil => rfl
  | cons m dims => exact List.prod_cons.symm

end MxArray

/-- `llen`: the product is an `int`, and the sum a `size_t` that becomes an `int`. -/
def bufferLength (v : MxArray) : Result Int :=
  let mn := toInt32 (v.getM % 2 ^ 32) * toInt32 (v.getN % 2 ^ 32)
  if -2 ^ 31 ≤ mn ∧ mn < 2 ^ 31 then
    .ok (toInt32 (((mn % 2 ^ 64).toNat * 2 + 1) % 2 ^ 32))
  else .undefined

/-- `mxGetString`: the text and its NUL, if there is room for them. -/
def mxGetString (lone : Nat → Nat) (v : MxArray) (buflen : Nat) : Option Bytes :=
  if v.isChar then
    match mxArrayToString lone v with
    | .ok s => if s.length ≤ buflen then some s else none
    | _ => none
  else none

/-- `getstring`, and its buffer.  No memory has a negative size. -/
def copyString (lone : Nat → Nat) (v : MxArray) : Result Bytes := do
  let llen ← bufferLength v
  if llen < 0 then .raised .matlab
  else
    match mxGetString lone v llen.toNat with
    | some s => .ok (s ++ List.replicate (llen.toNat - s.length) 0)
    | none => .raised .cannotCopyString

/-! ### The buffer -/

theorem toInt32_mul {m n : Nat} (h : m * n < 2 ^ 31) :
    toInt32 (m % 2 ^ 32) * toInt32 (n % 2 ^ 32) = ((m * n : Nat) : Int) := by
  have hzero : toInt32 (0 % 2 ^ 32) = 0 := rfl
  rcases Nat.eq_zero_or_pos m with rfl | hm
  · rw [hzero, Int.zero_mul, Nat.zero_mul]
    rfl
  rcases Nat.eq_zero_or_pos n with rfl | hn
  · rw [hzero, Int.mul_zero, Nat.mul_zero]
    rfl
  have hmle : m ≤ m * n := Nat.le_mul_of_pos_right m hn
  have hnle : n ≤ m * n := Nat.le_mul_of_pos_left n hm
  rw [(toInt32_eq_iff m).mpr (by omega), (toInt32_eq_iff n).mpr (by omega), Nat.cast_mul]

/-- The buffer has two bytes for each unit, and one for the NUL. -/
theorem bufferLength_eq {v : MxArray} (h : v.dims.prod * 2 + 1 < 2 ^ 31) :
    bufferLength v = .ok ((v.dims.prod * 2 + 1 : Nat) : Int) := by
  have hmn := toInt32_mul (m := v.getM) (n := v.getN) (by rw [v.getM_mul_getN]; omega)
  have hsize : ((v.dims.prod : Int) % 2 ^ 64).toNat = v.dims.prod := by omega
  rw [bufferLength, hmn, v.getM_mul_getN, hsize, if_pos (by omega), toInt32_eq_iff _ |>.mpr h]

namespace CharArray

variable (a : CharArray)

theorem length_units : a.units.length = a.array.dims.prod := length_toWords _ _ _

theorem units_lt : ∀ u ∈ a.units, u < 2 ^ 16 := toWords_lt 2 _ _

theorem mxGetString_eq (lone : Nat → Nat) (buflen : Nat) : mxGetString lone (.full a.array) buflen
    = if (a.text lone ++ [0]).length ≤ buflen then some (a.text lone ++ [0]) else none := by
  have hchar : (MxArray.full a.array).isChar = true := MxArray.isChar_iff.mpr a.isChar
  rw [mxGetString, if_pos hchar]
  rfl

/-- Bytes and units differ by the characters of one byte and of three. -/
theorem length_text {lone : Nat → Nat} (hlone : ∀ u, lone u ≤ 0xFFFF) :
    (a.text lone).length + oneByte (decodeUnits lone a.units)
      = 2 * a.units.length + threeBytes (decodeUnits lone a.units) :=
  length_encode_decodeUnits hlone a.units_lt

section

variable {lone : Nat → Nat} {a : CharArray} (hfits : a.units.length * 2 + 1 < 2 ^ 31)

include hfits

/-- With room the text and its NUL are copied, and without room the error is raised. -/
theorem copyString_eq : copyString lone (.full a.array)
    = if (a.text lone).length ≤ a.units.length * 2 then
        .ok (a.text lone ++ [0] ++ List.replicate (a.units.length * 2 - (a.text lone).length) 0)
      else .raised .cannotCopyString := by
  have hlen : (a.text lone ++ [0]).length = (a.text lone).length + 1 := List.length_append
  have hprod : (MxArray.full a.array).dims.prod = a.units.length := a.length_units.symm
  have hbuffer := bufferLength_eq (v := .full a.array) (by rw [hprod]; exact hfits)
  rw [hprod] at hbuffer
  rw [copyString, hbuffer, Outcome.ok_bind, if_neg (by omega), Int.toNat_natCast, a.mxGetString_eq, hlen]
  by_cases hroom : (a.text lone).length ≤ a.units.length * 2
  · rw [if_pos hroom, if_pos (by omega)]
    dsimp only
    rw [hlen, Nat.add_sub_add_right]
  · rw [if_neg hroom, if_neg (by omega)]

end

end CharArray

/-- **The array is copied whole**: no error is raised, and the buffer begins with the text and its NUL. -/
def CopiedWhole (lone : Nat → Nat) (a : CharArray) : Prop :=
  ∃ buffer, copyString lone (.full a.array) = .ok buffer ∧ a.text lone ++ [0] <+: buffer

/-- The string in the buffer. -/
def copiedText (lone : Nat → Nat) (v : MxArray) : Option CStr :=
  match copyString lone v with
  | .ok buffer => some (textOf buffer)
  | _ => none

/-- **The array is read in full** by those who call `getstring`. -/
def ReadInFull (lone : Nat → Nat) (a : CharArray) : Prop :=
  ∃ s, getstring (copiedText lone) (.full a.array) = .ok s ∧ s.1 = a.text lone

/-- What the callers have is what stands in the buffer up to its first NUL. -/
theorem getstring_copiedText {lone : Nat → Nat} {a : CharArray}
    (hfits : a.units.length * 2 + 1 < 2 ^ 31) :
    getstring (copiedText lone) (.full a.array)
      = copyString lone (.full a.array) >>= fun buffer => readCStr buffer 0 := by
  rw [getstring, copiedText, CharArray.copyString_eq hfits]
  by_cases hroom : (a.text lone).length ≤ a.units.length * 2
  · rw [if_pos hroom, Outcome.ok_bind, readCStr_textOf (by simp)]
  · rw [if_neg hroom]
    rfl

section

variable {lone : Nat → Nat} (hlone : ∀ u, 0 < lone u ∧ lone u ≤ 0xFFFF) (a : CharArray)

include hlone

theorem zero_mem_text_iff : 0 ∈ a.text lone ↔ 0 ∈ a.units := by
  have hpoints := isPoint_decodeUnits (fun u => (hlone u).2) a.units_lt
  rw [← zero_mem_decodeUnits_iff (fun u => (hlone u).1), CharArray.text, encodePoints, List.mem_flatMap]
  constructor
  · intro h
    obtain ⟨v, hv, hzero⟩ := h
    by_cases hv0 : v = 0
    · exact hv0 ▸ hv
    · exact absurd rfl (of_decide_eq_true (encodePoint_no_nul (hpoints v hv) hv0 0 hzero))
  · intro h
    exact ⟨0, h, List.mem_singleton_self _⟩

variable (hfits : a.units.length * 2 + 1 < 2 ^ 31)

include hfits

theorem copiedWhole_iff : CopiedWhole lone a ↔
    threeBytes (decodeUnits lone a.units) ≤ oneByte (decodeUnits lone a.units) := by
  have hlen := a.length_text fun u => (hlone u).2
  rw [CopiedWhole, CharArray.copyString_eq hfits]
  by_cases hroom : (a.text lone).length ≤ a.units.length * 2
  · rw [if_pos hroom]
    exact iff_of_true ⟨_, rfl, List.prefix_append _ _⟩ (by omega)
  · rw [if_neg hroom]
    refine iff_of_false ?_ (by omega)
    intro h
    obtain ⟨buffer, hbuffer, -⟩ := h
    cases hbuffer

/-- What is copied whole is read in full unless there is a NUL in it. -/
theorem readInFull_iff : ReadInFull lone a ↔ CopiedWhole lone a ∧ 0 ∉ a.units := by
  rw [← zero_mem_text_iff hlone, ReadInFull, getstring_copiedText hfits, CopiedWhole]
  constructor
  · intro h
    obtain ⟨s, hs, htext⟩ := h
    obtain ⟨buffer, hbuffer, -⟩ := Outcome.bind_eq_ok hs
    refine ⟨⟨buffer, hbuffer, ?_⟩, htext ▸ s.2⟩
    rw [CharArray.copyString_eq hfits] at hbuffer
    split at hbuffer
    · cases hbuffer
      exact List.prefix_append _ _
    · cases hbuffer
  · intro h
    obtain ⟨⟨buffer, hbuffer, t, rfl⟩, hzero⟩ := h
    refine ⟨textOf (a.text lone ++ [0] ++ t), ?_, ?_⟩
    · rw [hbuffer, Outcome.ok_bind, readCStr_textOf (by simp)]
    · rw [← List.append_cons]
      exact takeWhile_ne_zero_append hzero

/-- **Which arrays reach the program.**  Those are copied whole that have no more characters of three bytes
than of one, and read in full if moreover there is no NUL in them. -/
theorem getstring_iff :
    (CopiedWhole lone a ↔
      threeBytes (decodeUnits lone a.units) ≤ oneByte (decodeUnits lone a.units)) ∧
    (ReadInFull lone a ↔
      threeBytes (decodeUnits lone a.units) ≤ oneByte (decodeUnits lone a.units) ∧ 0 ∉ a.units) := by
  have hcopied := copiedWhole_iff hlone a hfits
  rw [readInFull_iff hlone a hfits, hcopied]
  exact ⟨Iff.rfl, Iff.rfl⟩

theorem copyString_raised_iff : copyString lone (.full a.array) = .raised .cannotCopyString ↔
    oneByte (decodeUnits lone a.units) < threeBytes (decodeUnits lone a.units) := by
  have hlen := a.length_text fun u => (hlone u).2
  rw [CharArray.copyString_eq hfits]
  by_cases hroom : (a.text lone).length ≤ a.units.length * 2
  · rw [if_pos hroom]
    refine iff_of_false ?_ (by omega)
    intro h
    cases h
  · rw [if_neg hroom]
    exact iff_of_true rfl (by omega)

end

/-- `'m'` -/
def letter : CharArray := ⟨⟨MxClass.char.id, 2, [1, 1], [109, 0], none, rfl, by simp⟩, rfl⟩

theorem letter_reaches : CopiedWhole (fun _ => 0xFFFD) letter ∧ ReadInFull (fun _ => 0xFFFD) letter := by
  have hlone : ∀ u, 0 < (fun _ : Nat => 0xFFFD) u ∧ (fun _ : Nat => 0xFFFD) u ≤ 0xFFFF := by
    intro u
    show 0 < 0xFFFD ∧ 0xFFFD ≤ 0xFFFF
    decide
  have hiff := getstring_iff hlone letter (by decide)
  exact ⟨hiff.1.mpr (by decide), hiff.2.mpr (by decide)⟩

/-- `U+4E2D`, a character of three bytes -/
def ideograph : CharArray := ⟨⟨MxClass.char.id, 2, [1, 1], [0x2D, 0x4E], none, rfl, by simp⟩, rfl⟩

/-- **One character of three bytes** has no room. -/
theorem ideograph_refused :
    ideograph.units = [0x4E2D] ∧ ideograph.text (fun _ => 0xFFFD) = [0xE4, 0xB8, 0xAD] ∧
      copyString (fun _ => 0xFFFD) (.full ideograph.array) = .raised .cannotCopyString ∧
      ¬CopiedWhole (fun _ => 0xFFFD) ideograph := by
  have hrun : copyString (fun _ => 0xFFFD) (.full ideograph.array) = .raised .cannotCopyString := rfl
  refine ⟨rfl, rfl, hrun, ?_⟩
  intro h
  obtain ⟨buffer, hbuffer, -⟩ := h
  cases hrun.symm.trans hbuffer

theorem readable_of_copied {lone : Nat → Nat} {p : Platform} (hp : p.mxGetString = copiedText lone)
    {prhs : List MxArray} {id : IdArg} (hid : (idArg prhs).out = .ok id)
    (h : ∀ v ∈ prhs, v.isChar = true → ∃ a : CharArray, v = .full a.array ∧ CopiedWhole lone a) :
    Readable p prhs id where
  id := hid
  strings := by
    intro v hv hchar
    obtain ⟨a, rfl, buffer, hbuffer, -⟩ := h v hv hchar
    rw [hp, copiedText, hbuffer]
    exact ⟨_, rfl⟩

end Mym
