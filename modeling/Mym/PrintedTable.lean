import Mym.Buffers
import Mym.Lib.Printf

/-!
# The printed table

`fancyprint` with what it prints: a line of names, a rule, and the rows, of which only the first and the
last ten are printed when there are more than fifty.  Every call of `mexPrintf` is an event, and
`Printing.fancyprint_out` says that the computation comes to the same as the one without them.

`tableText` is the text as it is meant, `printed_table` says that it is what is printed, and that it is a
table: all lines are equally long, and a value stands under the name of its column.
-/

namespace Mym

namespace Printing

/-! ### The calls of mexPrintf -/

def mexPrintf (format : Bytes) (args : List PrintfArg) : Logged Bytes MexError Unit :=
  match printf format args with
  | some t => Logged.emit t
  | none => Logged.lift .undefined

/-- What `%d` makes of an `unsigned long`. -/
def longArg (n : Nat) : PrintfArg := .int (toInt32 (n % 2 ^ 32))

/-- A line break. -/
def newline : Bytes := [10]

/-- `Printing full table data from row %d` -/
def rowMessage (part : Bytes) : Bytes :=
  [80, 114, 105, 110, 116, 105, 110, 103, 32] ++ part ++ [32, 116, 97, 98, 108, 101, 32, 100, 97, 116,
    97, 32, 102, 114, 111, 109, 32, 114, 111, 119, 32, 37, 100]

/-- `full` -/
def fullMessage : Bytes := rowMessage [102, 117, 108, 108] ++ newline
/-- `head` -/
def headMessage : Bytes := rowMessage [104, 101, 97, 100] ++ newline
/-- `tail`, which has no line break. -/
def tailMessage : Bytes := rowMessage [116, 97, 105, 108]

/-- `(zero rows in result set)` -/
def zeroRows : Bytes :=
  [40, 122, 101, 114, 111, 32, 114, 111, 119, 115, 32, 105, 110, 32, 114, 101, 115, 117, 108, 116, 32,
    115, 101, 116, 41]

/-- ` rows total)` -/
def rowsTotal : Bytes := [32, 114, 111, 119, 115, 32, 116, 111, 116, 97, 108, 41]

/-- `(%d rows total)` -/
def totalRows : Bytes := [40, 37, 100] ++ rowsTotal

/-- `n` columns from column `j` on, each through its format. -/
def printCells (fmts : List Bytes) (cell : Nat → Result CStr) : (j n : Nat) → Logged Bytes MexError Unit
  | _, 0 => pure ()
  | j, n + 1 => do
    let fmt ← Logged.lift (readEntry fmts j)
    let s ← Logged.lift (cell j)
    let format ← Logged.lift (readCStr fmt 0)
    mexPrintf format.1 [.string s.1]
    printCells fmts cell (j + 1) n

/-- `f[j].name` -/
def nameCell (fields : List MysqlField) (j : Nat) : Result CStr := do
  let f ← readEntry fields j
  .ok f.name

/-- `row[j] ? row[j] : ""` -/
def rowCell (row : Row) (j : Nat) : Result CStr := do
  let s ← readEntry row j
  match s with
  | some v => readCStr v.mem 0
  | none => .ok ⟨[], List.not_mem_nil⟩

def contstrCell (_ : Nat) : Result CStr := .ok ⟨contstr, by decide⟩

def printDashes : Nat → Logged Bytes MexError Unit
  | 0 => pure ()
  | n + 1 => do
    mexPrintf [45] []
    printDashes n

/-- The underlines, between two plus signs each. -/
def printRules : (len : List Nat) → Logged Bytes MexError Unit
  | [] => pure ()
  | width :: len => do
    mexPrintf [32, 43] []
    printDashes width
    mexPrintf [43] []
    printRules len

/-- `mysql_fetch_row`, and the exit without a row. -/
def fetchPrinted (res : ResultSet) (message : Bytes) (i : Nat) : Logged Bytes MexError Row :=
  match res.fetch i with
  | some row => pure row
  | none => do
    mexPrintf message [longArg (i + 1)]
    Logged.lift (.raised .noRow)

/-- `n` rows from row `i` on. -/
def printRows (res : ResultSet) (fmts : List Bytes) (message : Bytes) :
    (i n : Nat) → Logged Bytes MexError Unit
  | _, 0 => pure ()
  | i, n + 1 => do
    let row ← fetchPrinted res message i
    printCells fmts (rowCell row) 0 res.fields.length
    mexPrintf newline []
    printRows res fmts message (i + 1) n

/-- The rows, or what stands in their place. -/
def printBody (res : ResultSet) (fmts : List Bytes) : Logged Bytes MexError Unit :=
  if res.numRows = 0 then mexPrintf (zeroRows ++ newline) []
  else if nRowMax < res.numRows then do
    printRows res fmts headMessage 0 nHead
    printCells fmts contstrCell 0 res.fields.length
    mexPrintf newline []
    printRows res fmts tailMessage (res.numRows - nTail) nTail
    mexPrintf (totalRows ++ newline) [longArg res.numRows]
  else printRows res fmts fullMessage 0 res.numRows

def fancyprint (res : ResultSet) : Logged Bytes MexError Unit := do
  let clip := decide (nRowMax < res.numRows)
  let len := res.fields.map (columnWidth clip)
  let fmts ← Logged.lift (columnFormats clip res.fields)
  mexPrintf newline []
  printCells fmts (nameCell res.fields) 0 res.fields.length
  mexPrintf newline []
  printRules len
  mexPrintf newline []
  printBody res fmts
  mexPrintf newline []

end Printing

/-! ### The text -/

/-- A value up to its first NUL; NULL is empty. -/
def shownText (v : Option FieldValue) : Bytes := ((v.map FieldValue.bytes).getD []).takeWhile (· ≠ 0)

/-- A text in a column: two blanks, the text up to the width, and a blank. -/
def columnText (width : Nat) (s : Bytes) : Bytes := blank :: blank :: (s.rightpad width blank ++ [blank])

/-- Texts in their columns. -/
def tableLine (widths : List Nat) (texts : List Bytes) : Bytes :=
  (List.zipWith columnText widths texts).flatten

/-- A rule under a column. -/
def columnRule (width : Nat) : Bytes := blank :: plusSign :: (List.replicate width minusSign ++ [plusSign])

def tableRule (widths : List Nat) : Bytes := (widths.map columnRule).flatten

def rowLine (widths : List Nat) (row : Row) : Bytes := tableLine widths (row.map shownText)

section Text

variable (res : ResultSet) (rows : Nat → Row)

def tableWidths : List Nat := res.fields.map (columnWidth (decide (nRowMax < res.numRows)))

/-- The lines of the rows, with dots in place of those that are left out. -/
def rowLines : List Bytes :=
  if nRowMax < res.numRows then
    (List.range' 0 nHead).map (fun i => rowLine (tableWidths res) (rows i)) ++
      tableLine (tableWidths res) (List.replicate res.fields.length contstr) ::
      (List.range' (res.numRows - nTail) nTail).map fun i => rowLine (tableWidths res) (rows i)
  else (List.range' 0 res.numRows).map fun i => rowLine (tableWidths res) (rows i)

def tableLines : List Bytes :=
  tableLine (tableWidths res) (res.fields.map fun f => f.name.1) :: tableRule (tableWidths res) ::
    rowLines res rows

/-- A remark under the table. -/
def tableNote : List Bytes :=
  if res.numRows = 0 then [Printing.zeroRows]
  else if nRowMax < res.numRows then
    [[40] ++ (Printing.longArg res.numRows).text ++ Printing.rowsTotal]
  else []

def unlines (lines : List Bytes) : Bytes := lines.flatMap fun l => l ++ Printing.newline

def tableText : Bytes :=
  Printing.newline ++ unlines (tableLines res rows ++ tableNote res) ++ Printing.newline

end Text

namespace Printing

open Logged

variable {res : ResultSet}

/-! ### What the calls print -/

theorem prints_mexPrintf {format t : Bytes} {args : List PrintfArg} (h : printf format args = some t) :
    (mexPrintf format args).Prints t () := by
  rw [mexPrintf, h]
  exact prints_emit t

theorem prints_text {t : Bytes} (h : percentSign ∉ t) : (mexPrintf t []).Prints t () := by
  apply prints_mexPrintf
  rw [← List.append_nil t, printf_append h, printf_nil]
  rfl

/-- A format without its NUL in a buffer. -/
def IsFormat (width : Nat) (fmt : Bytes) : Prop := At fmt 0 (formatText width ++ [0])

theorem formatText_eq (width : Nat) : formatText width
    = [blank, blank] ++ percentSign :: minusSign :: (digits width ++ 115 :: [blank]) := by
  rw [formatText, List.append_assoc]
  rfl

theorem zero_not_mem_formatText (width : Nat) : (0 : UInt8) ∉ formatText width := by
  have hdigits : (0 : UInt8) ∉ digits width := fun h => absurd (isDigit_of_mem_digits h) (by decide)
  simp [formatText, hdigits]

theorem isFormat_of_columnFormat {width : Nat} {fmt : Bytes} (h : columnFormat width = .ok fmt) :
    IsFormat width fmt := by
  unfold columnFormat writeBytes at h
  split at h
  · cases h
    exact ⟨_, rfl⟩
  · cases h

theorem isFormat_of_columnFormats {clip : Bool} {fs : List MysqlField} {fmts : List Bytes}
    (h : columnFormats clip fs = .ok fmts) :
    List.Forall₂ IsFormat (fs.map (columnWidth clip)) fmts := by
  induction fs generalizing fmts with
  | nil =>
    cases h
    exact .nil
  | cons f fs ih =>
    obtain ⟨fmt, hfmt, h⟩ := Outcome.bind_eq_ok h
    obtain ⟨rest, hrest, h⟩ := Outcome.bind_eq_ok h
    cases h
    exact .cons (isFormat_of_columnFormat hfmt) (ih hrest)

/-- The format of a column prints a text in its column. -/
theorem printf_formatText (width : Nat) (s : Bytes) :
    printf (formatText width) [.string s] = some (columnText width s) := by
  have hblanks : percentSign ∉ [blank, blank] := by decide
  have hrest : printf [blank] [] = some [blank] := rfl
  rw [formatText_eq, printf_append hblanks]
  show (printf (percentSign :: minusSign :: (digits width ++ (PrintfArg.string s).letter :: [blank]))
    [.string s]).map _ = _
  rw [printf_left, hrest]
  rfl

/-- **Texts are printed in their columns.** -/
theorem prints_cells {widths : List Nat} {fmts : List Bytes} (hf : List.Forall₂ IsFormat widths fmts)
    {cell : Nat → Result CStr} {j : Nat} {done : List Bytes} (hj : j = done.length) {texts : List CStr}
    (hlen : texts.length = widths.length)
    (hcell : ∀ k s, texts[k]? = some s → cell (j + k) = .ok s) :
    (printCells (done ++ fmts) cell j widths.length).Prints
      (tableLine widths (texts.map Subtype.val)) () := by
  induction hf generalizing j done texts with
  | nil => exact prints_pure ()
  | @cons width fmt widths fmts hfmt _ ih =>
    cases texts with
    | nil => cases hlen
    | cons s texts =>
      have hformat : readCStr (ε := MexError) fmt 0 = .ok ⟨formatText width, zero_not_mem_formatText width⟩ :=
        readCStr_of_at hfmt
      have hrest : (printCells (done ++ fmt :: fmts) cell (j + 1) widths.length).Prints
          (tableLine widths (texts.map Subtype.val)) () := by
        rw [List.append_cons]
        refine ih (by rw [hj, List.length_append, List.length_singleton]) (Nat.succ.inj hlen) ?_
        intro k t ht
        rw [Nat.add_assoc, Nat.add_comm 1 k]
        exact hcell (k + 1) t ht
      exact (prints_lift (readEntry_append hj)).bind ((prints_lift (hcell 0 s rfl)).bind
        ((prints_lift hformat).bind ((prints_mexPrintf (printf_formatText width s.1)).bind hrest)))

theorem prints_dashes (n : Nat) : (printDashes n).Prints (List.replicate n minusSign) () := by
  induction n with
  | zero => exact prints_pure ()
  | succ n ih => exact (prints_text (by decide)).bind ih

theorem prints_rules (widths : List Nat) : (printRules widths).Prints (tableRule widths) () := by
  induction widths with
  | nil => exact prints_pure ()
  | cons width widths ih =>
    have h := (prints_text (t := [32, 43]) (by decide)).bind (f := fun _ => do
      printDashes width
      mexPrintf [43] []
      printRules widths) ((prints_dashes width).bind ((prints_text (by decide)).bind ih))
    have hrule : tableRule (width :: widths) = [32, 43] ++ (List.replicate width minusSign ++
        ([43] ++ tableRule widths)) := by
      simp [tableRule, columnRule, blank, plusSign]
    exact hrule ▸ h

/-! ### The rows -/

def shownStr (v : Option FieldValue) : CStr := textOf ((v.map FieldValue.bytes).getD [])

theorem takeWhile_ne_zero_append_zero (s t : Bytes) :
    (s ++ 0 :: t).takeWhile (· ≠ 0) = s.takeWhile (· ≠ 0) := by
  induction s with
  | nil => rfl
  | cons b s ih =>
    by_cases hb : b = 0
    · simp [hb]
    · rw [List.cons_append, List.takeWhile_cons_of_pos (by simpa using hb), ih,
        List.takeWhile_cons_of_pos (by simpa using hb)]

theorem rowCell_ok {row : Row} {j : Nat} {v : Option FieldValue} (h : row[j]? = some v) :
    rowCell row j = .ok (shownStr v) := by
  rw [rowCell, readEntry_eq_ok.mpr h, Outcome.ok_bind]
  cases v with
  | none => rfl
  | some v =>
    have hmem : (0 : UInt8) ∈ v.mem := List.mem_append_right _ List.mem_cons_self
    exact (readCStr_textOf hmem).trans (congrArg _ (Subtype.ext (takeWhile_ne_zero_append_zero _ _)))

/-- **A row is printed in its columns.** -/
theorem prints_row {widths : List Nat} {fmts : List Bytes} (hf : List.Forall₂ IsFormat widths fmts)
    {row : Row} (hrow : row.length = widths.length) :
    (printCells fmts (rowCell row) 0 widths.length).Prints (rowLine widths row) () := by
  have htexts : (row.map shownStr).map Subtype.val = row.map shownText := List.map_map
  rw [rowLine, ← htexts]
  refine @prints_cells _ _ hf _ 0 [] rfl _ (by rw [List.length_map, hrow]) ?_
  intro k s hs
  obtain ⟨v, hv, rfl⟩ := Option.map_eq_some_iff.mp (List.getElem?_map.symm.trans hs)
  rw [Nat.zero_add]
  exact rowCell_ok hv

section Rows

variable {widths : List Nat} {fmts : List Bytes} (hf : List.Forall₂ IsFormat widths fmts)
  (hwidths : widths.length = res.fields.length)

include hf hwidths

/-- A line for each row that is there. -/
theorem prints_rows (rows : Nat → Row) (message : Bytes) {i n : Nat}
    (hrows : ∀ k, i ≤ k → k < i + n → res.fetch k = some (rows k)) :
    (printRows res fmts message i n).Prints
      (unlines ((List.range' i n).map fun k => rowLine widths (rows k))) () := by
  induction n generalizing i with
  | zero => exact prints_pure ()
  | succ n ih =>
    have hfetch := hrows i (Nat.le_refl i) (by omega)
    have hrow : (rows i).length = widths.length := (res.fetch_length i _ hfetch).trans hwidths.symm
    have hhead : (fetchPrinted res message i).Prints [] (rows i) := by
      rw [fetchPrinted, hfetch]
      exact prints_pure _
    have hrest := ih (i := i + 1) fun k hk hk' => hrows k (by omega) (by omega)
    have hline := prints_row hf hrow
    rw [hwidths] at hline
    have h := hhead.bind (f := fun row => do
      printCells fmts (rowCell row) 0 res.fields.length
      mexPrintf newline []
      printRows res fmts message (i + 1) n) (hline.bind ((prints_text (by decide)).bind hrest))
    rw [List.range'_succ, List.map_cons, unlines, List.flatMap_cons, List.append_assoc]
    exact h

/-- The rows come to the same as without their texts. -/
theorem printRows_out {message : Bytes} (hmessage : ∀ n, (printf message [longArg n]).isSome) (i n : Nat) :
    (printRows res fmts message i n).out = Mym.printRows res i n >>= fun _ => .ok () := by
  induction n generalizing i with
  | zero => rfl
  | succ n ih =>
    rw [printRows, out_bind, Mym.printRows, Outcome.iter_succ, printRow]
    cases hfetch : res.fetch i with
    | none =>
      obtain ⟨t, ht⟩ := Option.isSome_iff_exists.mp (hmessage (i + 1))
      rw [fetchRow_of_none hfetch, fetchPrinted, hfetch]
      show (mexPrintf message [longArg (i + 1)] >>= fun _ => _).out >>= _ = _
      rw [out_bind, (prints_mexPrintf ht).out]
      rfl
    | some row =>
      have hrow : row.length = widths.length := (res.fetch_length i _ hfetch).trans hwidths.symm
      have hline := prints_row hf hrow
      rw [hwidths] at hline
      rw [fetchRow_of_some hfetch, fetchPrinted, hfetch]
      show (printCells fmts (rowCell row) 0 res.fields.length >>= fun _ => _).out = _
      rw [out_bind, hline.out, Outcome.ok_bind, out_bind, (prints_text (t := newline) (by decide)).out,
        Outcome.ok_bind, ih]
      rfl

/-- The names of the columns. -/
theorem prints_names : (printCells fmts (nameCell res.fields) 0 res.fields.length).Prints
    (tableLine widths (res.fields.map fun f => f.name.1)) () := by
  have htexts : (res.fields.map MysqlField.name).map Subtype.val = res.fields.map fun f => f.name.1 :=
    List.map_map
  rw [← htexts, ← hwidths]
  refine @prints_cells _ _ hf _ 0 [] rfl _ (by rw [List.length_map, hwidths]) ?_
  intro k s hs
  obtain ⟨f, hfield, rfl⟩ := Option.map_eq_some_iff.mp (List.getElem?_map.symm.trans hs)
  show nameCell res.fields (0 + k) = .ok f.name
  rw [Nat.zero_add, nameCell, readEntry_eq_ok.mpr hfield, Outcome.ok_bind]

/-- Dots in all columns. -/
theorem prints_contstr : (printCells fmts contstrCell 0 res.fields.length).Prints
    (tableLine widths (List.replicate res.fields.length contstr)) () := by
  have htexts : (List.replicate res.fields.length (⟨contstr, by decide⟩ : CStr)).map Subtype.val
      = List.replicate res.fields.length contstr := List.map_replicate
  rw [← htexts, ← hwidths]
  refine @prints_cells _ _ hf _ 0 [] rfl _ List.length_replicate ?_
  intro k s hs
  rw [List.getElem?_replicate] at hs
  split at hs
  · cases hs
    rfl
  · cases hs

end Rows

theorem length_tableWidths (res : ResultSet) : (tableWidths res).length = res.fields.length :=
  List.length_map _

theorem message_isSome {message : Bytes} (h : message = fullMessage ∨ message = headMessage ∨
    message = tailMessage) (n : Nat) : (printf message [longArg n]).isSome := by
  rcases h with rfl | rfl | rfl
  · rfl
  · rfl
  · rfl

/-- `(50 rows total)` -/
theorem printf_totalRows (n : Nat) : printf (totalRows ++ newline) [longArg n]
    = some ([40] ++ (longArg n).text ++ rowsTotal ++ newline) := by
  have hrest : printf (rowsTotal ++ newline) [] = some (rowsTotal ++ newline) := rfl
  show printf ([40] ++ percentSign :: (longArg n).letter :: (rowsTotal ++ newline)) [longArg n] = _
  rw [printf_append (by decide), printf_plain, hrest, List.append_assoc, List.append_assoc]
  rfl

section Body

variable {fmts : List Bytes} (hf : List.Forall₂ IsFormat (tableWidths res) fmts)

include hf

/-- **The rows are printed.** -/
theorem prints_body {rows : Nat → Row} (hrows : ∀ i, Printed res.numRows i → res.fetch i = some (rows i)) :
    (printBody res fmts).Prints (unlines (rowLines res rows ++ tableNote res)) () := by
  have hwidths := length_tableWidths res
  unfold printBody rowLines tableNote
  by_cases hzero : res.numRows = 0
  · rw [if_pos hzero, if_neg (by omega), if_pos hzero, hzero]
    exact prints_text (by decide)
  · rw [if_neg hzero, if_neg hzero]
    by_cases hclip : nRowMax < res.numRows
    · have hmax : 50 < res.numRows := hclip
      have hhead := prints_rows hf hwidths rows headMessage (i := 0) (n := nHead)
        fun k _ hk => hrows k ((printed_of_lt hclip).mpr (Or.inl (by omega)))
      have htail := prints_rows hf hwidths rows tailMessage (i := res.numRows - nTail)
        (n := nTail) fun k hk hk' => hrows k ((printed_of_lt hclip).mpr (Or.inr ⟨hk, by
          have htail : nTail = 10 := rfl
          omega⟩))
      have htext : ∀ (a b : List Bytes) (dots : Bytes), unlines (a ++ dots :: b ++
          [[40] ++ (longArg res.numRows).text ++ rowsTotal])
            = unlines a ++ (dots ++ (newline ++ (unlines b ++
              ([40] ++ (longArg res.numRows).text ++ rowsTotal ++ newline)))) := by
        simp [unlines]
      rw [if_pos hclip, if_pos hclip, if_pos hclip, htext]
      exact hhead.bind ((prints_contstr hf hwidths).bind ((prints_text (by decide)).bind
        (htail.bind (prints_mexPrintf (printf_totalRows res.numRows)))))
    · have hall := prints_rows hf hwidths rows fullMessage (i := 0) (n := res.numRows)
        fun k _ hk => hrows k ((printed_of_not_lt hclip).mpr (by omega))
      rw [if_neg hclip, if_neg hclip, if_neg hclip, List.append_nil]
      exact hall

theorem printBody_out : (printBody res fmts).out = (if nRowMax < res.numRows then do
      let _ ← Mym.printRows res 0 nHead
      let _ ← Mym.printRows res (res.numRows - nTail) nTail
      .ok ()
    else do
      let _ ← Mym.printRows res 0 res.numRows
      .ok ()) := by
  have hwidths := length_tableWidths res
  unfold printBody
  by_cases hzero : res.numRows = 0
  · rw [if_pos hzero, if_neg (by omega), hzero]
    exact (prints_text (t := zeroRows ++ newline) (by decide)).out
  · rw [if_neg hzero]
    by_cases hclip : nRowMax < res.numRows
    · rw [if_pos hclip, if_pos hclip, out_bind, printRows_out hf hwidths (message_isSome (by simp)),
        Outcome.bind_assoc]
      refine Outcome.bind_congr fun _ _ => ?_
      rw [Outcome.ok_bind, out_bind, (prints_contstr hf hwidths).out, Outcome.ok_bind, out_bind,
        (prints_text (t := newline) (by decide)).out, Outcome.ok_bind, out_bind,
        printRows_out hf hwidths (message_isSome (by simp)), Outcome.bind_assoc]
      refine Outcome.bind_congr fun _ _ => ?_
      exact (prints_mexPrintf (printf_totalRows res.numRows)).out
    · rw [if_neg hclip, if_neg hclip, printRows_out hf hwidths (message_isSome (by simp))]

end Body

/-- **The same as without the texts.** -/
theorem fancyprint_out (res : ResultSet) : (fancyprint res).out = Mym.fancyprint res := by
  have hwidths := length_tableWidths res
  unfold fancyprint Mym.fancyprint
  dsimp only
  rw [out_bind]
  show columnFormats _ _ >>= _ = _
  refine Outcome.bind_congr fun fmts hfmts => ?_
  have hf : List.Forall₂ IsFormat (tableWidths res) fmts := isFormat_of_columnFormats hfmts
  have hline : (mexPrintf newline []).Prints newline () := prints_text (by decide)
  have hbody := printBody_out hf
  rw [out_bind, hline.out, Outcome.ok_bind, out_bind, (prints_names hf hwidths).out, Outcome.ok_bind,
    out_bind, hline.out, Outcome.ok_bind, out_bind, (prints_rules _).out, Outcome.ok_bind, out_bind,
    hline.out, Outcome.ok_bind, out_bind, hbody, hline.out]
  simp only [decide_eq_true_eq]
  exact Outcome.bind_ok _

/-- **The table is printed**, where the formats fit and no row is missing. -/
theorem prints_table {rows : Nat → Row}
    (hfits : ∀ f ∈ res.fields, FormatFits (decide (nRowMax < res.numRows)) f)
    (hrows : ∀ i, Printed res.numRows i → res.fetch i = some (rows i)) :
    (fancyprint res).Prints (tableText res rows) () := by
  have hwidths := length_tableWidths res
  have hline : (mexPrintf newline []).Prints newline () := prints_text (by decide)
  rcases columnFormats_cases (decide (nRowMax < res.numRows)) res.fields with
    ⟨-, fmts, hfmts⟩ | ⟨hover, -⟩
  · have hf : List.Forall₂ IsFormat (tableWidths res) fmts := isFormat_of_columnFormats hfmts
    have htext : tableText res rows = [] ++ (newline ++ (tableLine (tableWidths res)
        (res.fields.map fun f => f.name.1) ++ (newline ++ (tableRule (tableWidths res) ++ (newline ++
          (unlines (rowLines res rows ++ tableNote res) ++ newline)))))) := by
      simp [tableText, tableLines, unlines]
    rw [htext]
    exact (prints_lift hfmts).bind (hline.bind ((prints_names hf hwidths).bind (hline.bind
      ((prints_rules _).bind (hline.bind ((prints_body hf hrows).bind hline))))))
  · exact absurd hfits hover

end Printing

/-! ### Alignment -/

/-- The length of a line. -/
def tableWidth (widths : List Nat) : Nat := (widths.map (· + 3)).sum

/-- What stands in column `j` of a line. -/
def cutColumn (widths : List Nat) (j : Nat) (line : Bytes) : Bytes :=
  (line.drop (tableWidth (widths.take j) + 2)).take ((widths[j]?).getD 0)

/-- The texts can be cut out of the line again, with blanks up to the width. -/
def InColumns (widths : List Nat) (texts : List Bytes) (line : Bytes) : Prop :=
  ∀ j width s, widths[j]? = some width → texts[j]? = some s →
    cutColumn widths j line = s.rightpad width blank

/-- The texts are no longer than their columns are wide. -/
abbrev Fit (widths : List Nat) (texts : List Bytes) : Prop :=
  List.Forall₂ (fun width s => s.length ≤ width) widths texts

section Alignment

variable {widths : List Nat} {texts : List Bytes}

theorem length_rightpad_of_le {width : Nat} {s : Bytes} (h : s.length ≤ width) :
    (s.rightpad width blank).length = width := by
  rw [List.length_rightpad, Nat.max_eq_left h]

theorem length_columnText {width : Nat} {s : Bytes} (h : s.length ≤ width) :
    (columnText width s).length = width + 3 := by
  rw [columnText, List.length_cons, List.length_cons, List.length_append, length_rightpad_of_le h]
  rfl

theorem length_columnRule (width : Nat) : (columnRule width).length = width + 3 := by
  rw [columnRule, List.length_cons, List.length_cons, List.length_append, List.length_replicate]
  rfl

theorem tableWidth_cons (width : Nat) (widths : List Nat) :
    tableWidth (width :: widths) = width + 3 + tableWidth widths := by
  rw [tableWidth, List.map_cons, List.sum_cons, tableWidth]

theorem tableLine_cons (width : Nat) (widths : List Nat) (s : Bytes) (texts : List Bytes) :
    tableLine (width :: widths) (s :: texts) = columnText width s ++ tableLine widths texts := by
  rw [tableLine, List.zipWith_cons_cons, List.flatten_cons, tableLine]

theorem length_tableRule (widths : List Nat) : (tableRule widths).length = tableWidth widths := by
  induction widths with
  | nil => rfl
  | cons width widths ih =>
    rw [tableRule, List.map_cons, List.flatten_cons, List.length_append, length_columnRule, ← tableRule,
      ih, tableWidth_cons]

theorem length_tableLine (h : Fit widths texts) :
    (tableLine widths texts).length = tableWidth widths := by
  induction h with
  | nil => rfl
  | cons hs _ ih => rw [tableLine_cons, List.length_append, length_columnText hs, ih, tableWidth_cons]

/-- **A text stands in its column.** -/
theorem inColumns_tableLine (h : Fit widths texts) :
    InColumns widths texts (tableLine widths texts) := by
  induction h with
  | nil =>
    intro j width s hwidth
    cases hwidth
  | @cons width s widths texts hs _ ih =>
    intro j width' s' hwidth hs'
    rw [tableLine_cons]
    cases j with
    | zero =>
      cases hwidth
      cases hs'
      show ((columnText width s ++ tableLine widths texts).drop 2).take width = _
      rw [columnText, List.cons_append, List.cons_append, List.drop_succ_cons, List.drop_succ_cons,
        List.drop_zero, List.append_assoc,
        List.take_append_of_le_length (Nat.le_of_eq (length_rightpad_of_le hs).symm),
        List.take_of_length_le (Nat.le_of_eq (length_rightpad_of_le hs))]
    | succ j =>
      have hskip : (columnText width s ++ tableLine widths texts).drop
          (tableWidth ((width :: widths).take (j + 1)) + 2)
            = (tableLine widths texts).drop (tableWidth (widths.take j) + 2) := by
        rw [List.take_succ_cons, tableWidth_cons, ← length_columnText hs, Nat.add_assoc,
          List.drop_append, List.drop_of_length_le (Nat.le_add_right _ _), Nat.add_sub_cancel_left]
        rfl
      rw [cutColumn, hskip]
      exact ih j width' s' hwidth hs'

end Alignment

/-- No value is longer than MySQL says of its column. -/
def WithinMaxLength (fields : List MysqlField) (row : Row) : Prop :=
  List.Forall₂ (fun f v => fetchedLength v ≤ f.maxLength) fields row

theorem length_shownText_le (v : Option FieldValue) : (shownText v).length ≤ fetchedLength v := by
  cases v with
  | none => exact Nat.le_refl 0
  | some v => exact (List.takeWhile_sublist _).length_le

section Table

variable {res : ResultSet} {rows : Nat → Row}

theorem le_columnWidth {f : MysqlField} (hname : f.name.1.length < 1000) (clip : Bool) :
    f.name.1.length ≤ columnWidth clip f ∧ f.maxLength ≤ columnWidth clip f ∧
      (clip = true → contstr.length ≤ columnWidth clip f) := by
  have hlen : throughInt f.name.1.length = f.name.1.length := by
    unfold throughInt toInt32
    split
    · omega
    · omega
  have hlong : ∀ len, len ≤ (if f.maxLength > len then f.maxLength else len) ∧
      f.maxLength ≤ if f.maxLength > len then f.maxLength else len := by
    intro len
    split
    · omega
    · omega
  have hclipped : ∀ len, len ≤ (if clip && contstr.length > len then contstr.length else len) ∧
      (clip = true → contstr.length ≤ if clip && contstr.length > len then contstr.length else len) := by
    intro len
    split
    · next h =>
      have hshort := of_decide_eq_true (Bool.and_eq_true_iff.mp h).2
      exact ⟨Nat.le_of_lt hshort, fun _ => Nat.le_refl _⟩
    · next h =>
      refine ⟨Nat.le_refl _, fun hclip => Nat.le_of_not_lt fun hshort => h ?_⟩
      rw [hclip, Bool.true_and]
      exact decide_eq_true hshort
  have hname := hlong f.name.1.length
  have hwidth := hclipped (if f.maxLength > f.name.1.length then f.maxLength else f.name.1.length)
  rw [columnWidth, hlen]
  exact ⟨hname.1.trans hwidth.1, hname.2.trans hwidth.1, hwidth.2⟩

/-- One text for each column. -/
theorem fit_of_le {texts : List Bytes} (h : List.Forall₂ (fun f s =>
      s.length ≤ columnWidth (decide (nRowMax < res.numRows)) f) res.fields texts) :
    Fit (tableWidths res) texts := List.forall₂_map_left_iff.mpr h

section Fit

variable (hnames : ∀ f ∈ res.fields, f.name.1.length < 1000)

include hnames

theorem fit_names : Fit (tableWidths res) (res.fields.map fun f => f.name.1) := by
  apply fit_of_le
  rw [List.forall₂_map_right_iff, List.forall₂_same]
  exact fun f hf => (le_columnWidth (hnames f hf) _).1

theorem fit_row {row : Row} (hmax : WithinMaxLength res.fields row) :
    Fit (tableWidths res) (row.map shownText) := by
  apply fit_of_le
  rw [List.forall₂_map_right_iff]
  refine (List.forall₂_iff_zip.mpr ⟨hmax.length_eq, fun {f v} hmem => ?_⟩)
  have hf := hnames f (List.of_mem_zip hmem).1
  have hvalue := (List.forall₂_iff_zip.mp hmax).2 hmem
  exact ((length_shownText_le v).trans hvalue).trans (le_columnWidth hf _).2.1

theorem fit_contstr (hclip : nRowMax < res.numRows) :
    Fit (tableWidths res) (List.replicate res.fields.length contstr) := by
  apply fit_of_le
  rw [← List.map_const', List.forall₂_map_right_iff, List.forall₂_same]
  exact fun f hf => (le_columnWidth (hnames f hf) _).2.2 (decide_eq_true hclip)

end Fit

/-- A line is that of a printed row, or the dots. -/
theorem mem_rowLines {l : Bytes} : l ∈ rowLines res rows ↔
    (∃ i, Printed res.numRows i ∧ rowLine (tableWidths res) (rows i) = l) ∨
      nRowMax < res.numRows ∧ tableLine (tableWidths res) (List.replicate res.fields.length contstr) = l := by
  unfold rowLines
  by_cases hclip : nRowMax < res.numRows
  · have hmax : 50 < res.numRows := hclip
    have htail : nTail = 10 := rfl
    rw [if_pos hclip]
    simp only [printed_of_lt hclip, List.mem_append, List.mem_cons, List.mem_map, List.mem_range'_1]
    constructor
    · rintro (⟨i, hi, rfl⟩ | rfl | ⟨i, hi, rfl⟩)
      · exact Or.inl ⟨i, Or.inl (by omega), rfl⟩
      · exact Or.inr ⟨hclip, rfl⟩
      · exact Or.inl ⟨i, Or.inr (by omega), rfl⟩
    · rintro (⟨i, hi | hi, rfl⟩ | ⟨-, rfl⟩)
      · exact Or.inl ⟨i, by omega, rfl⟩
      · exact Or.inr (Or.inr ⟨i, by omega, rfl⟩)
      · exact Or.inr (Or.inl rfl)
  · rw [if_neg hclip]
    simp only [printed_of_not_lt hclip, List.mem_map, List.mem_range'_1, Nat.zero_le, true_and,
      Nat.zero_add, hclip, false_and, or_false]

/-- **What is printed is a table.**  All lines are equally long, the names and the values of each row
stand in their columns. -/
theorem printed_table
    (hfits : ∀ f ∈ res.fields, f.name.1.length < 1000 ∧ f.maxLength < 1000)
    (hrows : ∀ i, Printed res.numRows i → res.fetch i = some (rows i))
    (hmax : ∀ i, Printed res.numRows i → WithinMaxLength res.fields (rows i)) :
    (Printing.fancyprint res).Prints (tableText res rows) () ∧
      (∀ l ∈ tableLines res rows, l.length = tableWidth (tableWidths res)) ∧
      InColumns (tableWidths res) (res.fields.map fun f => f.name.1)
        (tableLine (tableWidths res) (res.fields.map fun f => f.name.1)) ∧
      ∀ i, Printed res.numRows i → rowLine (tableWidths res) (rows i) ∈ tableLines res rows ∧
        InColumns (tableWidths res) ((rows i).map shownText) (rowLine (tableWidths res) (rows i)) := by
  have hnames : ∀ f ∈ res.fields, f.name.1.length < 1000 := fun f hf => (hfits f hf).1
  have hformats : ∀ f ∈ res.fields, FormatFits (decide (nRowMax < res.numRows)) f := by
    intro f hf
    obtain ⟨hname, hlen⟩ := hfits f hf
    rw [formatFits_iff, columnWidth_lt_iff]
    exact ⟨Nat.lt_of_le_of_lt (Nat.mod_le _ _) hname, hlen⟩
  have hrow := fun i hi => fit_row hnames (hmax i hi)
  refine ⟨Printing.prints_table hformats hrows, ?_, inColumns_tableLine (fit_names hnames), ?_⟩
  · intro l hl
    rcases List.mem_cons.mp hl with rfl | hl
    · exact length_tableLine (fit_names hnames)
    rcases List.mem_cons.mp hl with rfl | hl
    · exact length_tableRule _
    rcases mem_rowLines.mp hl with ⟨i, hi, rfl⟩ | ⟨hclip, rfl⟩
    · exact length_tableLine (hrow i hi)
    · exact length_tableLine (fit_contstr hnames hclip)
  · intro i hi
    have hmem : rowLine (tableWidths res) (rows i) ∈ rowLines res rows :=
      mem_rowLines.mpr (Or.inl ⟨i, hi, rfl⟩)
    exact ⟨List.mem_cons_of_mem _ (List.mem_cons_of_mem _ hmem), inColumns_tableLine (hrow i hi)⟩

end Table

/-- The two columns of `twoNames`, a rule and its row. -/
theorem printed_table_twoNames :
    (Printing.fancyprint twoNames).Prints
      [10, 32, 32, 105, 100, 32, 32, 32, 110, 111, 32, 10, 32, 43, 45, 45, 43, 32, 43, 45, 45, 43, 10,
        32, 32, 97, 32, 32, 32, 32, 49, 32, 32, 10, 10] () := by
  have hrows : ∀ i, Printed twoNames.numRows i → twoNames.fetch i = some [some ⟨[97], []⟩, some ⟨[49], []⟩] :=
    fun i hi => if_pos (Nat.lt_one_iff.mp hi)
  have hmax : ∀ i, Printed twoNames.numRows i →
      WithinMaxLength twoNames.fields [some ⟨[97], []⟩, some ⟨[49], []⟩] :=
    fun _ _ => .cons (Nat.le_refl 1) (.cons (Nat.le_refl 1) .nil)
  exact (@printed_table twoNames (fun _ => [some ⟨[97], []⟩, some ⟨[49], []⟩]) (by decide) hrows hmax).1

end Mym
