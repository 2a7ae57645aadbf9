import Mym.Lib.Decimal

/-!
# Formats of `printf`

The conversions `%s` and `%d` with the flag `-` and a width.  `printf` is the text for a format and its
arguments; it is not defined for any other conversion, for an argument of another kind, and for a
conversion without an argument.  Arguments that are left over are not looked at.
-/

namespace Mym

inductive PrintfArg where
  | string (s : Bytes)
  | int (n : Int)

/-- `%` -/
def percentSign : UInt8 := 37
/-- a blank -/
def blank : UInt8 := 32

/-- `s` or `d` -/
def PrintfArg.letter : PrintfArg → UInt8
  | .string _ => 115
  | .int _ => 100

def PrintfArg.text : PrintfArg → Bytes
  | .string s => s
  | .int n => numeral n

/-- Where a format is read: in its text, or behind a `%` with a flag and with the width so far. -/
inductive FormatState where
  | text
  | conversion (left : Bool) (width : Nat)

/-- The text of an argument, with blanks up to the width. -/
def padded (left : Bool) (width : Nat) (s : Bytes) : Bytes :=
  if left then s.rightpad width blank else s.leftpad width blank

def printfFrom : FormatState → Bytes → List PrintfArg → Option Bytes
  | .text, [], _ => some []
  | .conversion _ _, [], _ => none
  | .text, b :: bs, args =>
    if b = percentSign then printfFrom (.conversion false 0) bs args
    else (printfFrom .text bs args).map (b :: ·)
  | .conversion left width, b :: bs, args =>
    if b = minusSign ∧ width = 0 then printfFrom (.conversion true 0) bs args
    -- without a minus sign a zero in front of the width asks for zeros instead of blanks
    else if isDigit b ∧ (b ≠ 48 ∨ left ∨ width ≠ 0) then
      printfFrom (.conversion left (10 * width + (b.toNat - 48))) bs args
    else args.head?.bind fun arg =>
      if b = arg.letter then (printfFrom .text bs args.tail).map (padded left width arg.text ++ ·)
      else none

def printf (format : Bytes) (args : List PrintfArg) : Option Bytes := printfFrom .text format args

theorem printf_nil (args : List PrintfArg) : printf [] args = some [] := rfl

/-- Text is printed as it stands. -/
theorem printf_append {t : Bytes} (ht : percentSign ∉ t) (bs : Bytes) (args : List PrintfArg) :
    printf (t ++ bs) args = (printf bs args).map (t ++ ·) := by
  induction t with
  | nil => simp
  | cons b t ih =>
    have hb : b ≠ percentSign := fun h => ht (h ▸ List.mem_cons_self)
    have hrest : percentSign ∉ t := fun h => ht (List.mem_cons_of_mem b h)
    rw [List.cons_append, printf, printfFrom, if_neg hb, ← printf, ih hrest, Option.map_map]
    rfl

/-- The width of a left conversion. -/
theorem printfFrom_digits {ds : Bytes} (hds : ∀ b ∈ ds, isDigit b = true) (width : Nat) (bs : Bytes)
    (args : List PrintfArg) :
    printfFrom (.conversion true width) (ds ++ bs) args
      = printfFrom (.conversion true (ds.foldl (fun n b => 10 * n + (b.toNat - 48)) width)) bs args := by
  induction ds generalizing width with
  | nil => rfl
  | cons b ds ih =>
    have hb := hds b List.mem_cons_self
    have hminus : ¬(b = minusSign ∧ width = 0) := by
      rintro ⟨rfl, -⟩
      exact absurd hb (by decide)
    rw [List.cons_append, printfFrom, if_neg hminus, if_pos ⟨hb, Or.inr (Or.inl rfl)⟩,
      ih fun c hc => hds c (List.mem_cons_of_mem b hc), List.foldl_cons]

theorem PrintfArg.letter_plain (arg : PrintfArg) :
    arg.letter ≠ minusSign ∧ isDigit arg.letter = false := by
  cases arg with
  | string s => exact ⟨(by decide : (115 : UInt8) ≠ 45), rfl⟩
  | int n => exact ⟨(by decide : (100 : UInt8) ≠ 45), rfl⟩

/-- The letter ends a conversion. -/
theorem printfFrom_letter (left : Bool) (width : Nat) (arg : PrintfArg) (bs : Bytes)
    (args : List PrintfArg) : printfFrom (.conversion left width) (arg.letter :: bs) (arg :: args)
      = (printf bs args).map (padded left width arg.text ++ ·) := by
  have hdigit : ¬(isDigit arg.letter = true ∧ (arg.letter ≠ 48 ∨ left = true ∨ width ≠ 0)) := by
    rw [arg.letter_plain.2]
    exact fun h => absurd h.1 Bool.false_ne_true
  rw [printfFrom, if_neg fun h => arg.letter_plain.1 h.1, if_neg hdigit]
  exact if_pos rfl

/-- **A conversion with a width** puts blanks behind its text. -/
theorem printf_left (width : Nat) (arg : PrintfArg) (bs : Bytes) (args : List PrintfArg) :
    printf (percentSign :: minusSign :: (digits width ++ arg.letter :: bs)) (arg :: args)
      = (printf bs args).map (arg.text.rightpad width blank ++ ·) := by
  have hwidth : (digits width).foldl (fun n b => 10 * n + (b.toNat - 48)) 0 = width := ofDigits_digits width
  rw [printf, printfFrom, if_pos rfl, printfFrom, if_pos ⟨rfl, rfl⟩,
    printfFrom_digits (fun b => isDigit_of_mem_digits), hwidth, printfFrom_letter]
  rfl

/-- A conversion without one. -/
theorem printf_plain (arg : PrintfArg) (bs : Bytes) (args : List PrintfArg) :
    printf (percentSign :: arg.letter :: bs) (arg :: args) = (printf bs args).map (arg.text ++ ·) := by
  have hpad : padded false 0 arg.text = arg.text := by
    rw [padded, if_neg Bool.false_ne_true, List.leftpad, Nat.zero_sub]
    rfl
  rw [printf, printfFrom, if_pos rfl, printfFrom_letter, hpad]

end Mym
