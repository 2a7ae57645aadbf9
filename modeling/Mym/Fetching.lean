import Mym.ColumnDelivery
import Mym.ResultRelease

/-!
# What a SELECT comes to

`tableOf` says in a few lines what `fetchOutput` does with arrays, pointers into them and a struct whose
fields are looked up by name: the values of the rows are converted one after another, column by column.

`fetchOutput_refines` says that the two agree, errors included, where the columns have different names.
-/

namespace Mym

section

variable (api : ResultApi) (toDouble : Bool)

/-- The values of one row. -/
def rowValues : List MysqlField → Row → Result (List Value)
  | f :: fs, s :: row => do
    let v ← convert api toDouble f s
    let vs ← rowValues fs row
    .ok (v :: vs)
  | [], _ => .ok []
  | _ :: _, [] => .outside

/-- The `n` rows from row `i` on. -/
def rowsFrom (res : ResultSet) : (i n : Nat) → Result (List (List Value))
  | _, 0 => .ok []
  | i, n + 1 => do
    let row ← fetchRow res i
    let vs ← rowValues api toDouble res.fields row
    let t ← rowsFrom res (i + 1) n
    .ok (vs :: t)

/-- There is memory for the columns. -/
def columnsFor (nrow : Nat) : List MysqlField → Result Unit
  | [] => .ok ()
  | f :: fs =>
    match createContainer api toDouble nrow f with
    | .ok _ => columnsFor nrow fs
    | .error e => .raised e

/-- **The table of a result set.** -/
def tableOf (res : ResultSet) : Result (List (List Value)) :=
  if api.createStructMatrix (res.fields.map MysqlField.name) then do
    columnsFor api toDouble res.numRows res.fields
    rowsFrom api toDouble res 0 res.numRows
  else .raised .createStructure

/-- The struct array `p` is the table `t`: its field for column `j` is array `j`, which holds the
values of that column. -/
structure ShowsTable (res : ResultSet) (p : Plhs) (t : List (List Value)) : Prop where
  height : t.length = res.numRows
  width : ∀ vs ∈ t, vs.length = res.fields.length
  own : ∀ (j : Nat) (f : MysqlField), res.fields[j]? = some f → OwnArray api toDouble p j f
  entry : ∀ (i j : Nat) (vs : List Value) (v : Value), t[i]? = some vs → vs[j]? = some v →
    p.entry i j = some v

end

section

variable {api : ResultApi} {toDouble : Bool} {res : ResultSet}

/-! ### One row -/

/-- The value of a column is the converted one. -/
def RowOf (api : ResultApi) (toDouble : Bool) (fs : List MysqlField) (row : Row) (vs : List Value) :
    Prop :=
  vs.length = fs.length ∧
    ∀ (j : Nat) (f : MysqlField) (s : Option FieldValue) (v : Value), fs[j]? = some f →
      row[j]? = some s → vs[j]? = some v → convert api toDouble f s = .ok v

theorem RowOf.cons {f : MysqlField} {fs : List MysqlField} {s : Option FieldValue} {row : Row}
    {v : Value} {vs : List Value} (hv : convert api toDouble f s = .ok v)
    (h : RowOf api toDouble fs row vs) : RowOf api toDouble (f :: fs) (s :: row) (v :: vs) := by
  refine ⟨congrArg Nat.succ h.1, ?_⟩
  intro j f' s' v' hf hs hv'
  cases j with
  | zero =>
    cases hf
    cases hs
    cases hv'
    exact hv
  | succ j => exact h.2 j f' s' v' hf hs hv'

theorem passRow_alike {row : Row} {fs : List MysqlField} {j : Nat}
    (hlen : row.length = j + fs.length) :
    Outcome.Alike (fun _ vs => RowOf api toDouble fs (row.drop j) vs)
      (passRow api toDouble (fun _ => true) row j fs) (rowValues api toDouble fs (row.drop j)) := by
  induction fs generalizing j with
  | nil =>
    refine Outcome.alike_ok ⟨rfl, ?_⟩
    intro j f s v hf
    cases hf
  | cons f fs ih =>
    rw [List.length_cons] at hlen
    have hj : j < row.length := by omega
    have hs : row[j]? = some row[j] := List.getElem?_eq_getElem hj
    rw [passRow_cons hs, List.drop_eq_getElem_cons hj, rowValues]
    have hvalue : passValue api toDouble (fun _ => true) f row[j] = convert api toDouble f row[j] := by
      rw [passValue]
      exact Outcome.bind_ok _
    rw [hvalue]
    refine (Outcome.alike_refl _).bind ?_
    rintro v _ hv - rfl
    have hrest : Outcome.Alike (fun _ vs => RowOf api toDouble fs (row.drop (j + 1)) vs)
        (passRow api toDouble (fun _ => true) row (j + 1) fs)
        (rowValues api toDouble fs (row.drop (j + 1))) := ih (by omega)
    rw [← Outcome.bind_ok (passRow api toDouble (fun _ => true) row (j + 1) fs)]
    exact hrest.bind fun _ vs _ _ hvs => Outcome.alike_ok (hvs.cons hv)

/-! ### All rows -/

/-- `t` holds the rows from row `i` on. -/
def RowsFrom (api : ResultApi) (toDouble : Bool) (res : ResultSet) (i n : Nat)
    (t : List (List Value)) : Prop :=
  t.length = n ∧ ∀ (k : Nat) (vs : List Value), t[k]? = some vs →
    ∃ row, res.fetch (i + k) = some row ∧ RowOf api toDouble res.fields row vs

theorem rowsFrom_alike (i n : Nat) :
    Outcome.Alike (fun _ t => RowsFrom api toDouble res i n t)
      (Outcome.iter (passStep api toDouble (fun _ => true) res) n i)
      (rowsFrom api toDouble res i n) := by
  induction n generalizing i with
  | zero =>
    refine Outcome.alike_ok ⟨rfl, ?_⟩
    intro k vs h
    cases h
  | succ n ih =>
    rw [Outcome.iter_succ, passStep, rowsFrom, Outcome.bind_assoc]
    refine (Outcome.alike_refl _).bind ?_
    rintro row _ hrow - rfl
    have hfetch : res.fetch i = some row := by
      cases h : res.fetch i with
      | none =>
        rw [fetchRow_of_none h] at hrow
        cases hrow
      | some row' =>
        rw [fetchRow_of_some h] at hrow
        cases hrow
        rfl
    rw [Outcome.bind_assoc]
    have hlen : row.length = 0 + res.fields.length := by
      rw [res.fetch_length i row hfetch, Nat.zero_add]
    have hpass := @passRow_alike api toDouble row res.fields 0 hlen
    rw [List.drop_zero] at hpass
    refine hpass.bind ?_
    intro _ vs _ _ hvs
    rw [Outcome.ok_bind, ← Outcome.bind_ok (Outcome.iter _ n (i + 1))]
    refine (ih (i + 1)).bind ?_
    intro _ t _ _ ht
    refine Outcome.alike_ok ⟨congrArg Nat.succ ht.1, ?_⟩
    intro k vs' hk
    cases k with
    | zero =>
      cases hk
      exact ⟨row, hfetch, hvs⟩
    | succ k =>
      obtain ⟨row', hrow', hvs'⟩ := ht.2 k vs' hk
      exact ⟨row', by rw [← hrow', Nat.add_assoc, Nat.add_comm 1 k], hvs'⟩

/-! ### The columns -/

/-- The columns are placed, or the first one there is no memory for is reported. -/
theorem createFields_columns (hapi : api.Resolves) {fields : List MysqlField} {nrow : Nat} {p : Plhs}
    {j : Nat} (hp : Placed api toDouble fields nrow p j) {fs : List MysqlField}
    (hfs : fields.drop j = fs) (hj : j ≤ fields.length) :
    (columnsFor api toDouble nrow fs = .ok () ∧
      ∃ q, createFields api toDouble nrow p j fs = ⟨[], .ok q⟩ ∧
        Placed api toDouble fields nrow q fields.length) ∨
    ∃ e, columnsFor api toDouble nrow fs = .raised e ∧
      createFields api toDouble nrow p j fs = ⟨[.freeResult], .raised e⟩ := by
  induction fs generalizing p j with
  | nil =>
    obtain rfl : j = fields.length := Nat.le_antisymm hj (List.drop_eq_nil_iff.mp hfs)
    exact Or.inl ⟨rfl, p, rfl, hp⟩
  | cons f fs ih =>
    have hf : fields[j]? = some f := by
      rw [← List.head?_drop, hfs]
      rfl
    have hrest : fields.drop (j + 1) = fs := by
      rw [← List.tail_drop, hfs]
      rfl
    rw [columnsFor, createFields, createField]
    cases hc : createContainer api toDouble nrow f with
    | error e => exact Or.inr ⟨e, rfl, rfl⟩
    | ok c =>
      obtain ⟨q, hq, hplaced⟩ := hp.place hapi hf (createContainer_new hc)
      dsimp only
      rw [hq, Logged.lift_ok_bind]
      exact ih hplaced hrest (List.getElem?_eq_some_iff.mp hf).1

/-! ### The whole command -/

theorem shows_of_entered (hnames : DistinctNames res.fields) {q : Plhs}
    (hready : Ready api toDouble res.fields res.numRows q)
    (hentered : Entered api toDouble res q res.numRows 0) {t : List (List Value)}
    (ht : RowsFrom api toDouble res 0 res.numRows t) : ShowsTable api toDouble res q t where
  height := ht.1
  width vs hvs := by
    obtain ⟨k, hk⟩ := List.getElem?_of_mem hvs
    obtain ⟨row, -, hrow⟩ := ht.2 k vs hk
    exact hrow.1
  own j f hf := hnames.own hready hf
  entry i j vs v hi hj := by
    obtain ⟨row, hrow, hvs⟩ := ht.2 i vs hi
    rw [Nat.zero_add] at hrow
    have hlt : i < res.numRows := ht.1 ▸ (List.getElem?_eq_some_iff.mp hi).1
    have hcol : j < res.fields.length := hvs.1 ▸ (List.getElem?_eq_some_iff.mp hj).1
    have hf : res.fields[j]? = some res.fields[j] := List.getElem?_eq_getElem hcol
    obtain ⟨row', s, v', hrow', hs, hv', hentry⟩ :=
      hentered.loaded i j res.fields[j] hlt hf (Or.inl hlt)
    cases hrow.symm.trans hrow'
    have hv : convert api toDouble res.fields[j] s = .ok v := hvs.2 j _ s v hf hs hj
    cases hv.symm.trans hv'
    exact hentry

theorem releasing_out {α β : Type} (x : Result α) (g : α → β) :
    (Logged.emit ResultCall.storeResult >>= fun _ => Logged.lift x >>= fun a =>
      Logged.emit .freeResult >>= fun _ => pure (g a)).out = x >>= fun a => .ok (g a) := by
  cases x <;> rfl

/-- One output is the table, or the load stops where the table does. -/
theorem fetchOutput_alike (hapi : api.Resolves) (hnames : DistinctNames res.fields) :
    Outcome.Alike (fun o t => ∃ p, o = some p ∧ ShowsTable api toDouble res p t)
      (fetchOutput api 1 toDouble res).out (tableOf api toDouble res) := by
  unfold fetchOutput tableOf
  dsimp only
  rw [if_neg (by omega), if_neg (by omega)]
  cases hstruct : api.createStructMatrix (res.fields.map MysqlField.name) with
  | false => exact Or.inr ⟨.raised .createStructure, rfl, rfl⟩
  | true =>
    rw [if_pos rfl, if_pos rfl]
    rcases createFields_columns hapi (placed_start api toDouble res.fields res.numRows)
      List.drop_zero (Nat.zero_le _) with ⟨hcolumns, p, hp, hplaced⟩ | ⟨e, hcolumns, he⟩
    · rw [hcolumns, hp, Outcome.ok_bind]
      show Outcome.Alike _ (Logged.emit ResultCall.storeResult >>= fun _ =>
        Logged.lift (loadRows api toDouble res p) >>= fun q =>
        Logged.emit .freeResult >>= fun _ => pure (some q)).out _
      rw [releasing_out]
      have hload := loadRows_alike hplaced.ready fun _ => hplaced.entered
      rw [convertRows_eq hnames, convertRows, passRows] at hload
      have hrows := @rowsFrom_alike api toDouble res 0 res.numRows
      rcases hload with ⟨q, _, hq, hpass, hready, hentered⟩ | ⟨c, hc, hpass⟩
      · obtain ⟨k, hk, -⟩ := Outcome.bind_eq_ok hpass
        obtain ⟨t, ht, hrow⟩ := hrows.of_ok hk
        rw [hq, ht]
        exact Outcome.alike_ok ⟨q, rfl, shows_of_entered hnames hready (hentered hnames) hrow⟩
      · have hiter := (Outcome.stop_bind.mp hpass).resolve_right (by rintro ⟨k, -, h⟩; cases h)
        exact Or.inr ⟨c, Outcome.stop_bind.mpr (Or.inl hc), hrows.stop_eq.symm.trans hiter⟩
    · rw [hcolumns, he]
      exact Or.inr ⟨.raised e, rfl, rfl⟩

/-- **`fetchOutput` hands out the table of the result set**, or stops where the table does.  More than
one output is an error. -/
theorem fetchOutput_refines (hapi : api.Resolves) (hnames : DistinctNames res.fields) :
    Outcome.Alike (fun o t => ∃ p, o = some p ∧ ShowsTable api toDouble res p t)
        (fetchOutput api 1 toDouble res).out (tableOf api toDouble res) ∧
      ∀ nlhs, 1 < nlhs → (fetchOutput api nlhs toDouble res).out = .raised .oneOutput := by
  refine ⟨fetchOutput_alike hapi hnames, fun nlhs hlt => ?_⟩
  rw [fetchOutput, if_neg (by omega), if_pos (by omega)]
  rfl

end

theorem fetchOutput_refines_two :
    ∃ p, (fetchOutput plainResultApi 1 false twoNames).out = .ok (some p) ∧
      ShowsTable plainResultApi false twoNames p
        [[.cell (.value (.full (charRow ⟨[97], by decide⟩))), .word 1]] := by
  have htable : tableOf plainResultApi false twoNames
      = .ok [[.cell (.value (.full (charRow ⟨[97], by decide⟩))), .word 1]] := rfl
  rcases (@fetchOutput_refines _ false twoNames plainResultApi_resolves
    (by rw [DistinctNames]; decide)).1 with ⟨o, t, ho, ht, p, rfl, hp⟩ | ⟨c, -, hc⟩
  · cases htable.symm.trans ht
    exact ⟨p, ho, hp⟩
  · rw [htable] at hc
    cases hc

end Mym
