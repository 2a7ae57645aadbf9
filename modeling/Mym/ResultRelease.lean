import Mym.ColumnDelivery
import Mym.ConversionErrors

/-!
# When a result set is released

The errors of the creation loop and of a wrong number of outputs are raised behind `mysql_free_result`.
Those of `fancyprint` and of the load loop are not: a row that is not there, a NULL in a BIGINT
column that stays integer, and a blob that `deserialize` rejects leave the branch with the result set in
memory (`leaves_iff`).

`releasedOnce_iff` says when the branch ends with the result set released once: unless rows are printed
or loaded, always, and there if all of them go through.
-/

namespace Mym

/-! ### Values in their order -/

section Order

variable (api : ResultApi) (toDouble : Bool) (res : ResultSet)

/-- The value of row `i`, column `j`, and its column. -/
def ValueAt (i j : Nat) (f : MysqlField) (s : Option FieldValue) : Prop :=
  ∃ row, res.fetch i = some row ∧ res.fields[j]? = some f ∧ row[j]? = some s

/-- A value that is converted, and written to a container that takes it. -/
def GoesThrough (i j : Nat) : Prop :=
  ∃ f s, ValueAt res i j f s ∧ (∃ v, convert api toDouble f s = .ok v) ∧
    lands toDouble res.fields f = true

def RefusedAt (i j : Nat) : Prop := ∃ f s, ValueAt res i j f s ∧ Rejects api toDouble f s

/-- A row that is there and goes through. -/
def RowGoesThrough (i : Nat) : Prop :=
  res.fetch i ≠ none ∧ ∀ j < res.fields.length, GoesThrough api toDouble res i j

/-- All rows go through. -/
def Loads : Prop := ∀ i < res.numRows, RowGoesThrough api toDouble res i

/-- In the order in which the values are loaded, what does not go through first is a row that is not
there or a value that is refused. -/
def LoadFails : Prop :=
  ∃ i < res.numRows, (∀ i' < i, RowGoesThrough api toDouble res i') ∧
    (res.fetch i = none ∨
      ∃ j, (∀ j' < j, GoesThrough api toDouble res i j') ∧ RefusedAt api toDouble res i j)

end Order

section Pass

variable {api : ResultApi} {toDouble : Bool} {res : ResultSet} {i : Nat} {row : Row}

theorem passValue_ok {landing : MysqlField → Bool} {f : MysqlField} {s : Option FieldValue} :
    (∃ v, passValue api toDouble landing f s = .ok v) ↔
      (∃ v, convert api toDouble f s = .ok v) ∧ landing f = true := by
  rw [passValue]
  constructor
  · intro h
    obtain ⟨v, hv⟩ := h
    obtain ⟨w, hw, hlands⟩ := Outcome.bind_eq_ok hv
    split at hlands
    · next h => exact ⟨⟨w, hw⟩, h⟩
    · cases hlands
  · intro h
    obtain ⟨⟨v, hv⟩, h⟩ := h
    rw [hv, Outcome.ok_bind, if_pos h]
    exact ⟨v, rfl⟩

theorem passValue_raised {landing : MysqlField → Bool} {f : MysqlField} {s : Option FieldValue} :
    (∃ e, passValue api toDouble landing f s = .raised e) ↔ Rejects api toDouble f s := by
  rw [← convert_raised, passValue]
  constructor
  · intro h
    obtain ⟨e, he⟩ := h
    refine ⟨e, ?_⟩
    by_contra hconvert
    apply Outcome.bind_ne_raised hconvert _ he
    intro v _ h
    split at h
    · cases h
    · cases h
  · intro h
    obtain ⟨e, he⟩ := h
    rw [he]
    exact ⟨e, rfl⟩

section Value

variable (hrow : res.fetch i = some row) {j : Nat} {f : MysqlField} (hf : res.fields[j]? = some f)
  {s : Option FieldValue} (hs : row[j]? = some s)

include hrow hf hs

theorem goesThrough_iff :
    GoesThrough api toDouble res i j ↔
      ∃ v, passValue api toDouble (lands toDouble res.fields) f s = .ok v := by
  rw [passValue_ok]
  constructor
  · intro h
    obtain ⟨f', s', ⟨row', hrow', hf', hs'⟩, hgoes⟩ := h
    cases hrow.symm.trans hrow'
    cases hf.symm.trans hf'
    cases hs.symm.trans hs'
    exact hgoes
  · intro hgoes
    exact ⟨f, s, ⟨row, hrow, hf, hs⟩, hgoes⟩

theorem refused_iff :
    RefusedAt api toDouble res i j ↔
      ∃ e, passValue api toDouble (lands toDouble res.fields) f s = .raised e := by
  rw [passValue_raised]
  constructor
  · intro h
    obtain ⟨f', s', ⟨row', hrow', hf', hs'⟩, hrejects⟩ := h
    cases hrow.symm.trans hrow'
    cases hf.symm.trans hf'
    cases hs.symm.trans hs'
    exact hrejects
  · intro hrejects
    exact ⟨f, s, ⟨row, hrow, hf, hs⟩, hrejects⟩

end Value

theorem passRow_cons {f : MysqlField} {fs : List MysqlField} {j : Nat} {s : Option FieldValue}
    (hs : row[j]? = some s) (landing : MysqlField → Bool) :
    passRow api toDouble landing row j (f :: fs)
      = passValue api toDouble landing f s >>= fun _ => passRow api toDouble landing row (j + 1) fs := by
  rw [passRow, readEntry_eq_ok.mpr hs, Outcome.ok_bind]

section Row

variable (hrow : res.fetch i = some row)

include hrow

/-- A row has a value for each column. -/
theorem value_of_column {j : Nat} (hj : j < res.fields.length) : ∃ s, row[j]? = some s := by
  have hlen : j < row.length := by
    rw [res.fetch_length i row hrow]
    exact hj
  exact ⟨row[j], List.getElem?_eq_getElem hlen⟩

/-- **A row goes through** from column `j` on. -/
theorem passRow_ok {j : Nat} {fs : List MysqlField} (hfs : res.fields.drop j = fs) :
    passRow api toDouble (lands toDouble res.fields) row j fs = .ok () ↔
      ∀ k, j ≤ k → k < res.fields.length → GoesThrough api toDouble res i k := by
  induction fs generalizing j with
  | nil =>
    have hend : res.fields.length ≤ j := List.drop_eq_nil_iff.mp hfs
    exact ⟨fun _ k hjk hk => by omega, fun _ => rfl⟩
  | cons f fs ih =>
    obtain ⟨hj, hf, hrest⟩ := of_drop_eq_cons hfs
    obtain ⟨s, hs⟩ := value_of_column hrow hj
    have hgoes : GoesThrough api toDouble res i j ↔ _ := goesThrough_iff hrow hf hs
    rw [passRow_cons hs]
    constructor
    · intro hall k hjk hk
      obtain ⟨v, hv, hrec⟩ := Outcome.bind_eq_ok hall
      rcases Nat.eq_or_lt_of_le hjk with rfl | hlt
      · exact hgoes.mpr ⟨v, hv⟩
      · exact (ih hrest).mp hrec k hlt hk
    · intro hall
      obtain ⟨v, hv⟩ := hgoes.mp (hall j (Nat.le_refl j) hj)
      rw [hv, Outcome.ok_bind]
      exact (ih hrest).mpr fun k hjk hk => hall k (Nat.le_of_succ_le hjk) hk

/-- **An error in a row** is that of the first value that does not go through. -/
theorem passRow_raised {j : Nat} {fs : List MysqlField} (hfs : res.fields.drop j = fs) :
    (∃ e, passRow api toDouble (lands toDouble res.fields) row j fs = .raised e) ↔
      ∃ k, j ≤ k ∧ (∀ k', j ≤ k' → k' < k → GoesThrough api toDouble res i k') ∧
        RefusedAt api toDouble res i k := by
  induction fs generalizing j with
  | nil =>
    have hend : res.fields.length ≤ j := List.drop_eq_nil_iff.mp hfs
    constructor
    · intro h
      obtain ⟨e, he⟩ := h
      cases he
    · intro hw
      obtain ⟨k, hjk, -, f, s, ⟨row', -, hf, -⟩, -⟩ := hw
      have hk := (List.getElem?_eq_some_iff.mp hf).1
      omega
  | cons f fs ih =>
    obtain ⟨hj, hf, hrest⟩ := of_drop_eq_cons hfs
    obtain ⟨s, hs⟩ := value_of_column hrow hj
    have hgoes : GoesThrough api toDouble res i j ↔ _ := goesThrough_iff hrow hf hs
    have hrefused : RefusedAt api toDouble res i j ↔ _ := refused_iff hrow hf hs
    rw [passRow_cons hs]
    constructor
    · intro h
      obtain ⟨e, he⟩ := h
      rcases Outcome.stop_bind.mp (Outcome.stop_eq_raised.mpr he) with hhere | ⟨v, hv, hrec⟩
      · refine ⟨j, Nat.le_refl j, fun k' h h' => by omega, ?_⟩
        exact hrefused.mpr ⟨e, Outcome.stop_eq_raised.mp hhere⟩
      · obtain ⟨k, hjk, hbefore, hk⟩ := (ih hrest).mp ⟨e, Outcome.stop_eq_raised.mp hrec⟩
        refine ⟨k, Nat.le_of_succ_le hjk, ?_, hk⟩
        intro k' hjk' hk'
        rcases Nat.eq_or_lt_of_le hjk' with rfl | hlt
        · exact hgoes.mpr ⟨v, hv⟩
        · exact hbefore k' hlt hk'
    · intro h
      obtain ⟨k, hjk, hbefore, hk⟩ := h
      rcases Nat.eq_or_lt_of_le hjk with rfl | hlt
      · obtain ⟨e, he⟩ := hrefused.mp hk
        rw [he]
        exact ⟨e, rfl⟩
      · obtain ⟨v, hv⟩ := hgoes.mp (hbefore j (Nat.le_refl j) hlt)
        rw [hv, Outcome.ok_bind]
        exact (ih hrest).mpr ⟨k, hlt, fun k' h h' => hbefore k' (Nat.le_of_succ_le h) h', hk⟩

end Row

theorem fetchRow_of_some (hrow : res.fetch i = some row) : fetchRow res i = .ok row := by
  rw [fetchRow, hrow]

theorem fetchRow_of_none (hrow : res.fetch i = none) : fetchRow res i = .raised .noRow := by
  rw [fetchRow, hrow]

theorem passStep_ok {i' : Nat} :
    passStep api toDouble (lands toDouble res.fields) res i = .ok i' ↔
      RowGoesThrough api toDouble res i ∧ i' = i + 1 := by
  rw [passStep]
  cases hrow : res.fetch i with
  | none =>
    rw [fetchRow_of_none hrow]
    constructor
    · intro h
      cases h
    · intro h
      exact absurd hrow h.1.1
  | some row =>
    have hpass : passRow api toDouble (lands toDouble res.fields) row 0 res.fields = .ok () ↔ _ :=
      passRow_ok hrow rfl
    rw [fetchRow_of_some hrow, Outcome.ok_bind]
    constructor
    · intro h
      obtain ⟨u, hu, hi'⟩ := Outcome.bind_eq_ok h
      refine ⟨⟨by rw [hrow]; exact Option.some_ne_none row, ?_⟩, (Outcome.ok.inj hi').symm⟩
      intro j hj
      exact hpass.mp hu j (Nat.zero_le j) hj
    · intro h
      obtain ⟨hgoes, hi'⟩ := h
      have hu : passRow api toDouble (lands toDouble res.fields) row 0 res.fields = .ok () :=
        hpass.mpr fun j _ hj => hgoes.2 j hj
      rw [hu, Outcome.ok_bind, hi']

theorem passStep_raised :
    (∃ e, passStep api toDouble (lands toDouble res.fields) res i = .raised e) ↔
      res.fetch i = none ∨
        ∃ j, (∀ j' < j, GoesThrough api toDouble res i j') ∧ RefusedAt api toDouble res i j := by
  rw [passStep]
  cases hrow : res.fetch i with
  | none =>
    rw [fetchRow_of_none hrow]
    exact ⟨fun _ => Or.inl rfl, fun _ => ⟨_, rfl⟩⟩
  | some row =>
    have hpass : (∃ e, passRow api toDouble (lands toDouble res.fields) row 0 res.fields = .raised e)
        ↔ _ := passRow_raised hrow rfl
    rw [fetchRow_of_some hrow, Outcome.ok_bind]
    constructor
    · intro h
      obtain ⟨e, he⟩ := h
      obtain ⟨j, -, hbefore, hj⟩ := hpass.mp ⟨e, Outcome.bind_ok_eq_raised.mp he⟩
      exact Or.inr ⟨j, fun j' h => hbefore j' (Nat.zero_le j') h, hj⟩
    · intro h
      obtain ⟨j, hbefore, hj⟩ := h.resolve_left (Option.some_ne_none row)
      obtain ⟨e, he⟩ := hpass.mpr ⟨j, Nat.zero_le j, fun j' _ h => hbefore j' h, hj⟩
      exact ⟨e, Outcome.bind_ok_eq_raised.mpr he⟩

theorem iter_passStep {n i' : Nat} :
    Outcome.iter (passStep api toDouble (lands toDouble res.fields) res) n 0 = .ok i' ↔
      (∀ i < n, RowGoesThrough api toDouble res i) ∧ i' = n := by
  induction n generalizing i' with
  | zero => exact ⟨fun h => ⟨fun i hi => absurd hi (Nat.not_lt_zero i), (Outcome.ok.inj h).symm⟩,
      fun h => by rw [h.2]; rfl⟩
  | succ n ih =>
    rw [Outcome.iter_succ_last]
    constructor
    · intro h
      obtain ⟨k, hk, hstep⟩ := Outcome.bind_eq_ok h
      obtain ⟨hbefore, rfl⟩ := ih.mp hk
      obtain ⟨hhere, hi'⟩ := passStep_ok.mp hstep
      refine ⟨?_, hi'⟩
      intro i hi
      rcases Nat.lt_succ_iff_lt_or_eq.mp hi with hlt | rfl
      · exact hbefore i hlt
      · exact hhere
    · intro h
      obtain ⟨hall, hi'⟩ := h
      rw [ih.mpr ⟨fun i hi => hall i (Nat.lt_succ_of_lt hi), rfl⟩, Outcome.ok_bind]
      exact passStep_ok.mpr ⟨hall n (Nat.lt_succ_self n), hi'⟩

/-- **The load loop comes to its end** if all rows go through. -/
theorem passRows_ok :
    passRows api toDouble (lands toDouble res.fields) res = .ok () ↔ Loads api toDouble res := by
  rw [passRows]
  constructor
  · intro h
    obtain ⟨k, hk, -⟩ := Outcome.bind_eq_ok h
    exact (iter_passStep.mp hk).1
  · intro h
    rw [iter_passStep.mpr ⟨h, rfl⟩]
    rfl

/-- **An error of the load loop** is that of the first row or value that does not go through. -/
theorem passRows_raised :
    (∃ e, passRows api toDouble (lands toDouble res.fields) res = .raised e) ↔
      LoadFails api toDouble res := by
  rw [passRows]
  constructor
  · intro h
    obtain ⟨e, he⟩ := h
    have hstop := Outcome.stop_eq_raised.mpr (Outcome.bind_ok_eq_raised.mp he)
    obtain ⟨i, hi, k, hk, hstep⟩ := Outcome.iter_stop.mp hstop
    obtain ⟨hbefore, rfl⟩ := iter_passStep.mp hk
    exact ⟨k, hi, hbefore, passStep_raised.mp ⟨e, Outcome.stop_eq_raised.mp hstep⟩⟩
  · intro h
    obtain ⟨i, hi, hbefore, hfails⟩ := h
    obtain ⟨e, he⟩ := passStep_raised.mpr hfails
    refine ⟨e, Outcome.bind_ok_eq_raised.mpr (Outcome.stop_eq_raised.mp ?_)⟩
    exact Outcome.iter_stop.mpr ⟨i, hi, i, iter_passStep.mpr ⟨hbefore, rfl⟩,
      Outcome.stop_eq_raised.mpr he⟩

end Pass

/-! ### Printing -/

/-- The rows that are printed. -/
def Printed (nrow i : Nat) : Prop :=
  if nRowMax < nrow then i < nHead ∨ nrow - nTail ≤ i ∧ i < nrow else i < nrow

/-- The format of a column fits its ten bytes. -/
def FormatFits (clip : Bool) (f : MysqlField) : Prop := (digits (columnWidth clip f)).length ≤ 3

/-- All formats fit, and the rows that are printed are there. -/
def PrintsThrough (res : ResultSet) : Prop :=
  (∀ f ∈ res.fields, FormatFits (decide (nRowMax < res.numRows)) f) ∧
    ∀ i, Printed res.numRows i → res.fetch i ≠ none

/-- All formats fit, and a row that is printed is not there. -/
def PrintFails (res : ResultSet) : Prop :=
  (∀ f ∈ res.fields, FormatFits (decide (nRowMax < res.numRows)) f) ∧
    ∃ i, Printed res.numRows i ∧ res.fetch i = none

section Print

variable {res : ResultSet}

theorem length_formatText (width : Nat) :
    (formatText width ++ [0]).length = (digits width).length + 7 := by
  rw [formatText, List.length_append, List.length_append, List.length_append]
  show 4 + (digits width).length + 2 + 1 = (digits width).length + 7
  omega

theorem columnFormat_cases (width : Nat) :
    (digits width).length ≤ 3 ∧ (∃ fmt, columnFormat width = .ok fmt) ∨
      ¬(digits width).length ≤ 3 ∧ columnFormat width = .outside := by
  unfold columnFormat writeBytes
  rw [length_formatText, List.length_replicate]
  by_cases hfits : (digits width).length ≤ 3
  · rw [if_pos (by omega)]
    exact Or.inl ⟨hfits, _, rfl⟩
  · rw [if_neg (by omega)]
    exact Or.inr ⟨hfits, rfl⟩

theorem columnFormats_cases (clip : Bool) (fs : List MysqlField) :
    (∀ f ∈ fs, FormatFits clip f) ∧ (∃ fmts, columnFormats clip fs = .ok fmts) ∨
      (¬∀ f ∈ fs, FormatFits clip f) ∧ columnFormats clip fs = .outside := by
  induction fs with
  | nil => exact Or.inl ⟨fun f hf => absurd hf List.not_mem_nil, [], rfl⟩
  | cons f fs ih =>
    rw [columnFormats]
    rcases columnFormat_cases (columnWidth clip f) with ⟨hfits, fmt, hfmt⟩ | ⟨hover, hfmt⟩
    · rw [hfmt, Outcome.ok_bind]
      rcases ih with ⟨hall, fmts, hfmts⟩ | ⟨hno, hfmts⟩
      · rw [hfmts]
        refine Or.inl ⟨?_, fmt :: fmts, rfl⟩
        intro g hg
        rcases List.mem_cons.mp hg with rfl | hg
        · exact hfits
        · exact hall g hg
      · rw [hfmts]
        exact Or.inr ⟨fun h => hno fun g hg => h g (List.mem_cons_of_mem f hg), rfl⟩
    · rw [hfmt]
      exact Or.inr ⟨fun h => hover (h f List.mem_cons_self), rfl⟩

/-- Rows are printed until one is not there. -/
theorem printRows_cases (res : ResultSet) (i n : Nat) :
    (∀ k, i ≤ k → k < i + n → res.fetch k ≠ none) ∧ printRows res i n = .ok (i + n) ∨
      (∃ k, i ≤ k ∧ k < i + n ∧ res.fetch k = none) ∧ printRows res i n = .raised .noRow := by
  induction n generalizing i with
  | zero => exact Or.inl ⟨fun k h h' => by omega, rfl⟩
  | succ n ih =>
    rw [printRows, Outcome.iter_succ, printRow]
    cases hrow : res.fetch i with
    | none =>
      rw [fetchRow_of_none hrow]
      exact Or.inr ⟨⟨i, Nat.le_refl i, by omega, hrow⟩, rfl⟩
    | some row =>
      rw [fetchRow_of_some hrow, Outcome.ok_bind, Outcome.ok_bind]
      have hlen : i + 1 + n = i + (n + 1) := by omega
      rcases ih (i + 1) with ⟨hall, hok⟩ | ⟨⟨k, hik, hk, hnone⟩, herr⟩
      · refine Or.inl ⟨?_, hlen ▸ hok⟩
        intro k hik hk
        rcases Nat.eq_or_lt_of_le hik with rfl | hlt
        · rw [hrow]
          exact Option.some_ne_none row
        · exact hall k hlt (by omega)
      · exact Or.inr ⟨⟨k, by omega, by omega, hnone⟩, herr⟩

theorem printed_of_lt {nrow i : Nat} (h : nRowMax < nrow) :
    Printed nrow i ↔ i < nHead ∨ nrow - nTail ≤ i ∧ i < nrow := by
  rw [Printed, if_pos h]

theorem printed_of_not_lt {nrow i : Nat} (h : ¬nRowMax < nrow) : Printed nrow i ↔ i < nrow := by
  rw [Printed, if_neg h]

/-- The first and the last rows. -/
theorem printClipped_cases (hclip : nRowMax < res.numRows) :
    (∀ i, Printed res.numRows i → res.fetch i ≠ none) ∧
        (∃ i, (printRows res 0 nHead >>= fun _ => printRows res (res.numRows - nTail) nTail) = .ok i) ∨
      (∃ i, Printed res.numRows i ∧ res.fetch i = none) ∧
        (printRows res 0 nHead >>= fun _ => printRows res (res.numRows - nTail) nTail)
          = .raised .noRow := by
  have hmax : 50 < res.numRows := hclip
  have hhead : nHead = 10 := rfl
  have htail : nTail = 10 := rfl
  simp only [printed_of_lt hclip]
  rcases printRows_cases res 0 nHead with ⟨hfirst, hok⟩ | ⟨⟨k, -, hk, hnone⟩, herr⟩
  · rw [hok, Outcome.ok_bind]
    rcases printRows_cases res (res.numRows - nTail) nTail with
      ⟨hlast, hok⟩ | ⟨⟨k, hk, hk', hnone⟩, herr⟩
    · refine Or.inl ⟨?_, _, hok⟩
      rintro k (hk | ⟨hk, hk'⟩)
      · exact hfirst k (Nat.zero_le k) (by omega)
      · exact hlast k hk (by omega)
    · exact Or.inr ⟨⟨k, Or.inr ⟨hk, by omega⟩, hnone⟩, herr⟩
  · rw [herr]
    exact Or.inr ⟨⟨k, Or.inl (by omega), hnone⟩, rfl⟩

/-- All rows. -/
theorem printWhole_cases (hclip : ¬nRowMax < res.numRows) :
    (∀ i, Printed res.numRows i → res.fetch i ≠ none) ∧
        (∃ i, printRows res 0 res.numRows = .ok i) ∨
      (∃ i, Printed res.numRows i ∧ res.fetch i = none) ∧
        printRows res 0 res.numRows = .raised .noRow := by
  simp only [printed_of_not_lt hclip]
  rcases printRows_cases res 0 res.numRows with ⟨hall, hok⟩ | ⟨⟨k, -, hk, hnone⟩, herr⟩
  · exact Or.inl ⟨fun k hk => hall k (Nat.zero_le k) (by omega), _, hok⟩
  · exact Or.inr ⟨⟨k, by omega, hnone⟩, herr⟩

/-- **How `fancyprint` ends.** -/
theorem fancyprint_cases (res : ResultSet) :
    (PrintsThrough res ∧ fancyprint res = .ok ()) ∨
      (PrintFails res ∧ fancyprint res = .raised .noRow) ∨
      ((∃ f ∈ res.fields, ¬FormatFits (decide (nRowMax < res.numRows)) f) ∧
        fancyprint res = .outside) := by
  unfold fancyprint PrintsThrough PrintFails
  dsimp only
  rcases columnFormats_cases (decide (nRowMax < res.numRows)) res.fields with
    ⟨hfits, fmts, hfmts⟩ | ⟨hover, hfmts⟩
  · rw [hfmts, Outcome.ok_bind, and_iff_right hfits, and_iff_right hfits]
    by_cases hclip : nRowMax < res.numRows
    · rw [if_pos (decide_eq_true hclip), ← Outcome.bind_assoc]
      rcases printClipped_cases hclip with ⟨hall, i, hok⟩ | ⟨hmissing, herr⟩
      · exact Or.inl ⟨hall, by rw [hok]; rfl⟩
      · exact Or.inr (Or.inl ⟨hmissing, by rw [herr]; rfl⟩)
    · rw [if_neg (by rw [decide_eq_false hclip]; exact Bool.false_ne_true)]
      rcases printWhole_cases hclip with ⟨hall, i, hok⟩ | ⟨hmissing, herr⟩
      · exact Or.inl ⟨hall, by rw [hok]; rfl⟩
      · exact Or.inr (Or.inl ⟨hmissing, by rw [herr]; rfl⟩)
  · rw [hfmts]
    simp only [not_forall] at hover
    obtain ⟨f, hf, hno⟩ := hover
    exact Or.inr (Or.inr ⟨⟨f, hf, hno⟩, rfl⟩)

theorem fancyprint_ok : (∃ u, fancyprint res = .ok u) ↔ PrintsThrough res := by
  rcases fancyprint_cases res with ⟨h, he⟩ | ⟨⟨-, i, hi, hnone⟩, he⟩ | ⟨⟨f, hf, hno⟩, he⟩
  · exact iff_of_true ⟨(), he⟩ h
  · rw [he]
    exact iff_of_false nofun fun h => h.2 i hi hnone
  · rw [he]
    exact iff_of_false nofun fun h => hno (h.1 f hf)

theorem fancyprint_raised : (∃ e, fancyprint res = .raised e) ↔ PrintFails res := by
  rcases fancyprint_cases res with ⟨h, he⟩ | ⟨h, he⟩ | ⟨⟨f, hf, hno⟩, he⟩
  · rw [he]
    refine iff_of_false nofun fun hfails => ?_
    obtain ⟨-, i, hi, hnone⟩ := hfails
    exact h.2 i hi hnone
  · exact iff_of_true ⟨_, he⟩ h
  · rw [he]
    exact iff_of_false nofun fun h => hno (h.1 f hf)

end Print

/-! ### Release -/

/-- A value is returned, or an error is raised. -/
def Ends {α : Type} (x : Result α) : Prop := (∃ a, x = .ok a) ∨ ∃ e, x = .raised e

/-- The branch ends, and the result set has been freed once. -/
def ReleasedOnce {α : Type} (r : Logged ResultCall MexError α) : Prop :=
  Ends r.out ∧ r.log.count .freeResult = 1

/-- An error ends the branch, and the result set has not been freed. -/
def Leaves {α : Type} (r : Logged ResultCall MexError α) : Prop :=
  (∃ e, r.out = .raised e) ∧ r.log.count .freeResult = 0

/-- The struct and the arrays for the columns are created. -/
def CreatesAll (api : ResultApi) (toDouble : Bool) (res : ResultSet) : Prop :=
  api.createStructMatrix (res.fields.map MysqlField.name) = true ∧
    ∀ f ∈ res.fields, Creates api toDouble res.numRows f

/-- What is printed or loaded goes through. -/
def GoesWell (api : ResultApi) (nlhs : Nat) (toDouble : Bool) (res : ResultSet) : Prop :=
  2 ≤ nlhs ∨ nlhs < 1 ∧ PrintsThrough res ∨
    nlhs = 1 ∧ (CreatesAll api toDouble res → Loads api toDouble res)

/-- What leaves the branch with the result set in memory. -/
def Leaks (api : ResultApi) (nlhs : Nat) (toDouble : Bool) (res : ResultSet) : Prop :=
  nlhs < 1 ∧ PrintFails res ∨
    nlhs = 1 ∧ CreatesAll api toDouble res ∧ LoadFails api toDouble res

section Behind

variable {α β : Type} (x : Result α) (g : α → β)

/-- `x`, and the release of the result set behind it. -/
def releaseBehind : Logged ResultCall MexError β :=
  Logged.emit .storeResult >>= fun _ => Logged.lift x >>= fun a =>
    Logged.emit .freeResult >>= fun _ => pure (g a)

/-- What does not return does not come to the release. -/
theorem releaseBehind_stop {b : Outcome.Stop MexError} (hx : x.stop = some b) :
    (releaseBehind x g).log = [.storeResult] ∧ (releaseBehind x g).out.stop = some b := by
  obtain ⟨hlog, hout⟩ := Logged.lift_bind_of_stop hx fun a =>
    (Logged.emit ResultCall.freeResult >>= fun _ => pure (g a) : Logged ResultCall MexError β)
  rw [releaseBehind, Logged.emit_bind]
  exact ⟨congrArg (List.cons _) hlog, hout⟩

theorem releasedOnce_behind : ReleasedOnce (releaseBehind x g) ↔ ∃ a, x = .ok a := by
  cases hx : x.stop with
  | none =>
    obtain ⟨a, rfl⟩ := Outcome.stop_eq_none.mp hx
    exact iff_of_true ⟨Or.inl ⟨g a, rfl⟩, rfl⟩ ⟨a, rfl⟩
  | some b =>
    obtain ⟨hlog, -⟩ := releaseBehind_stop x g hx
    refine iff_of_false (fun h => ?_) fun h => ?_
    · have hcount := h.2
      rw [hlog] at hcount
      cases hcount
    · obtain ⟨a, rfl⟩ := h
      cases hx

theorem leaves_behind : Leaves (releaseBehind x g) ↔ ∃ e, x = .raised e := by
  cases hx : x.stop with
  | none =>
    obtain ⟨a, rfl⟩ := Outcome.stop_eq_none.mp hx
    refine iff_of_false (fun h => ?_) nofun
    cases h.2
  | some b =>
    obtain ⟨hlog, hout⟩ := releaseBehind_stop x g hx
    rw [Leaves, hlog]
    simp only [← Outcome.stop_eq_raised, hx, hout]
    exact and_iff_left rfl

end Behind

/-- An error that is raised behind `mysql_free_result`. -/
def freed {α : Type} (e : MexError) : Logged ResultCall MexError α :=
  ⟨[.storeResult, .freeResult], .raised e⟩

theorem releasedOnce_freed {α : Type} (e : MexError) : ReleasedOnce (freed (α := α) e) :=
  ⟨Or.inr ⟨e, rfl⟩, rfl⟩

theorem leaves_freed {α : Type} (e : MexError) : ¬Leaves (freed (α := α) e) := by
  intro h
  cases h.2

section

variable {api : ResultApi} {nlhs : Nat} {toDouble : Bool} {res : ResultSet}

/-- The three ways of the branch: rows are printed, an error is raised behind the release, or rows are
loaded. -/
theorem fetchOutput_cases (hapi : api.Resolves) (nlhs : Nat) (toDouble : Bool) (res : ResultSet) :
    (nlhs < 1 ∧ fetchOutput api nlhs toDouble res = releaseBehind (fancyprint res) fun _ => none) ∨
      (1 ≤ nlhs ∧ (nlhs = 1 → ¬CreatesAll api toDouble res) ∧
        ∃ e, fetchOutput api nlhs toDouble res = freed e) ∨
      (nlhs = 1 ∧ CreatesAll api toDouble res ∧
        ∃ p, fetchOutput api nlhs toDouble res = releaseBehind (loadRows api toDouble res p) some ∧
          (loadRows api toDouble res p).stop
            = (passRows api toDouble (lands toDouble res.fields) res).stop) := by
  unfold fetchOutput
  dsimp only
  by_cases hprint : nlhs < 1
  · simp only [if_pos hprint]
    exact Or.inl ⟨hprint, rfl⟩
  by_cases hone : nlhs ≠ 1
  · simp only [if_neg hprint, if_pos hone]
    exact Or.inr (Or.inl ⟨by omega, fun h => absurd h hone, _, rfl⟩)
  simp only [if_neg hprint, if_neg hone]
  have hnlhs : nlhs = 1 := not_not.mp hone
  cases hstruct : api.createStructMatrix (res.fields.map MysqlField.name) with
  | false =>
    rw [if_neg Bool.false_ne_true]
    refine Or.inr (Or.inl ⟨by omega, fun _ h => ?_, _, rfl⟩)
    cases hstruct.symm.trans h.1
  | true =>
    rw [if_pos rfl]
    rcases createFields_cases hapi toDouble res.fields res.numRows with
      ⟨hcreates, p, hp, hplaced⟩ | ⟨hno, e, he⟩
    · rw [hp]
      have hload := loadRows_alike hplaced.ready fun _ => hplaced.entered
      exact Or.inr (Or.inr ⟨hnlhs, ⟨hstruct, hcreates⟩, p, rfl, hload.stop_eq⟩)
    · rw [he]
      exact Or.inr (Or.inl ⟨by omega, fun _ h => hno h.2, _, rfl⟩)

/-- **What leaves the branch with the result set in memory.** -/
theorem leaves_iff (hapi : api.Resolves) :
    Leaves (fetchOutput api nlhs toDouble res) ↔ Leaks api nlhs toDouble res := by
  unfold Leaks
  rcases fetchOutput_cases hapi nlhs toDouble res with
    ⟨hprint, he⟩ | ⟨hlhs, hno, e, he⟩ | ⟨hone, hcreates, p, he, hstop⟩
  · rw [he, leaves_behind, fancyprint_raised]
    refine ⟨fun h => Or.inl ⟨hprint, h⟩, fun h => ?_⟩
    rcases h with ⟨-, h⟩ | ⟨h, -⟩
    · exact h
    · omega
  · rw [he]
    refine iff_of_false (leaves_freed e) fun h => ?_
    rcases h with ⟨h, -⟩ | ⟨h, hcreates, -⟩
    · omega
    · exact hno h hcreates
  · have hsame : (∃ e, loadRows api toDouble res p = .raised e) ↔ LoadFails api toDouble res := by
      rw [← passRows_raised]
      simp only [← Outcome.stop_eq_raised, hstop]
    rw [he, leaves_behind, hsame]
    refine ⟨fun h => Or.inr ⟨hone, hcreates, h⟩, fun h => ?_⟩
    rcases h with ⟨h, -⟩ | ⟨-, -, h⟩
    · omega
    · exact h

/-- **When the branch ends with the result set released exactly once.** -/
theorem releasedOnce_iff (hapi : api.Resolves) (nlhs : Nat) (toDouble : Bool) (res : ResultSet) :
    ReleasedOnce (fetchOutput api nlhs toDouble res) ↔ GoesWell api nlhs toDouble res := by
  unfold GoesWell
  rcases fetchOutput_cases hapi nlhs toDouble res with
    ⟨hprint, he⟩ | ⟨hlhs, hno, e, he⟩ | ⟨hone, hcreates, p, he, hstop⟩
  · rw [he, releasedOnce_behind, fancyprint_ok]
    refine ⟨fun h => Or.inr (Or.inl ⟨hprint, h⟩), fun h => ?_⟩
    rcases h with h | ⟨-, h⟩ | ⟨h, -⟩
    · omega
    · exact h
    · omega
  · rw [he]
    refine iff_of_true (releasedOnce_freed e) ?_
    by_cases hone : nlhs = 1
    · exact Or.inr (Or.inr ⟨hone, fun h => absurd h (hno hone)⟩)
    · exact Or.inl (by omega)
  · have hsame : (∃ p', loadRows api toDouble res p = .ok p') ↔ Loads api toDouble res := by
      rw [← passRows_ok, ← Outcome.stop_eq_none, hstop, Outcome.stop_eq_none]
      exact ⟨fun h => h.elim fun _ hu => hu, fun h => ⟨(), h⟩⟩
    rw [he, releasedOnce_behind, hsame]
    refine ⟨fun h => Or.inr (Or.inr ⟨hone, fun _ => h⟩), fun h => ?_⟩
    rcases h with h | ⟨h, -⟩ | ⟨-, h⟩
    · omega
    · omega
    · exact h hcreates

end

/-- The result set of `twoNames` with both columns is released. -/
theorem twoNames_released : ReleasedOnce (fetchOutput plainResultApi 1 false twoNames) := by
  apply (releasedOnce_iff plainResultApi_resolves 1 false twoNames).mpr
  refine Or.inr (Or.inr ⟨rfl, fun _ i hi => ?_⟩)
  have hi : i < 1 := hi
  obtain rfl : i = 0 := by omega
  refine ⟨nofun, fun j hj => ?_⟩
  match j with
  | 0 => exact ⟨_, _, ⟨_, rfl, rfl, rfl⟩, ⟨_, rfl⟩, rfl⟩
  | 1 => exact ⟨_, _, ⟨_, rfl, rfl, rfl⟩, ⟨_, rfl⟩, rfl⟩
  | j + 2 =>
    have hj : j + 2 < 2 := hj
    omega

/-! ### A NULL -/

/-- `SELECT id FROM t` for a table `t` with a NULL in its column `id`, which is a BIGINT -/
def nullBigint : ResultSet := oneRow [plainField nameId .longlong] [none] rfl

/-- The error about the NULL is raised before the result set is freed. -/
theorem nullBigint_leaks :
    (fetchOutput plainResultApi 1 false nullBigint).out = .raised .nullBigint ∧
      (fetchOutput plainResultApi 1 false nullBigint).log.count .freeResult = 0 ∧
      ¬ReleasedOnce (fetchOutput plainResultApi 1 false nullBigint) :=
  ⟨rfl, rfl, fun h => by cases h.2⟩

end Mym
