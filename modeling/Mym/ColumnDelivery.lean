import Mathlib.Data.List.Nodup
import Mym.ColumnCreation

/-!
# Which columns are delivered

A column is delivered if its values end up in the array that has been created for it, and this array is
the one that the returned struct holds under its name.  `columnsDelivered_iff` says that all columns of
a result set are, exactly if no two of them have one name.
-/

namespace Mym

/-- The conversions of all values in their order, with nothing stored. -/
def convertRows (api : ResultApi) (toDouble : Bool) (res : ResultSet) : Result Unit :=
  passRows api toDouble (fun _ => true) res

/-- The array that has been created for column `j` is found under the name of the column, and has the
kind that the load loop writes. -/
def OwnArray (api : ResultApi) (toDouble : Bool) (p : Plhs) (j : Nat) (f : MysqlField) : Prop :=
  p.getField api f.name = some j ∧ ∃ c, p.arrays[j]? = some c ∧ c.kind = loadedKind toDouble f

/-- From the struct `p` of the creation loop the load loop delivers every column: it ends as the
conversions do, and if it returns, each value stands in its row of the array of its column. -/
structure ColumnsDelivered (api : ResultApi) (toDouble : Bool) (res : ResultSet) (p : Plhs) : Prop where
  own : ∀ (j : Nat) (f : MysqlField), res.fields[j]? = some f → OwnArray api toDouble p j f
  ends : (loadRows api toDouble res p).stop = (convertRows api toDouble res).stop
  own_loaded : ∀ q, loadRows api toDouble res p = .ok q → ∀ (j : Nat) (f : MysqlField),
    res.fields[j]? = some f → OwnArray api toDouble q j f
  stored : ∀ q, loadRows api toDouble res p = .ok q → ∀ (i j : Nat) (f : MysqlField),
    i < res.numRows → res.fields[j]? = some f → ∃ row s v, res.fetch i = some row ∧
      row[j]? = some s ∧ convert api toDouble f s = .ok v ∧ q.entry i j = some v

/-! ### Distinct names -/

section Distinct

variable {api : ResultApi} {toDouble : Bool} {fields : List MysqlField} (hnames : DistinctNames fields)

include hnames

theorem DistinctNames.lastNamed_eq {j : Nat} {f : MysqlField} (hf : fields[j]? = some f) :
    lastNamed fields f.name = some f := by
  cases hlast : lastNamed fields f.name with
  | none =>
    have hno := List.find?_eq_none.mp hlast f (List.mem_reverse.mpr (List.mem_of_getElem? hf))
    exact absurd (decide_eq_true rfl) hno
  | some g =>
    obtain ⟨k, hk⟩ := List.mem_iff_getElem?.mp (List.mem_reverse.mp (List.mem_of_find?_eq_some hlast))
    have hkj : k = j := hnames.eq_of_name hf hk (lastNamed_name hlast)
    rw [hkj, hf] at hk
    exact hk.symm

/-- With distinct names every value lands. -/
theorem DistinctNames.lands {f : MysqlField} (hf : f ∈ fields) : lands toDouble fields f = true := by
  obtain ⟨j, hj⟩ := List.mem_iff_getElem?.mp hf
  rw [Mym.lands, hnames.lastNamed_eq hj, Option.map_some]
  by_cases hcell : loadedKind toDouble f = .cell
  · rw [hcell]
    rfl
  · rw [bne_iff_ne.mpr hcell]
    rfl

theorem DistinctNames.passRow_eq (row : Row) (j : Nat) {fs : List MysqlField}
    (hfs : ∀ f ∈ fs, f ∈ fields) :
    passRow api toDouble (Mym.lands toDouble fields) row j fs
      = passRow api toDouble (fun _ => true) row j fs := by
  induction fs generalizing j with
  | nil => rfl
  | cons f fs ih =>
    rw [passRow, passRow]
    simp only [passValue, hnames.lands (hfs f List.mem_cons_self)]
    apply Outcome.bind_congr
    intro s _
    apply Outcome.bind_congr
    intro v _
    exact ih (j + 1) fun g hg => hfs g (List.mem_cons_of_mem f hg)

theorem DistinctNames.own {nrow : Nat} {p : Plhs} (hp : Ready api toDouble fields nrow p) {j : Nat}
    {f : MysqlField} (hf : fields[j]? = some f) : OwnArray api toDouble p j f := by
  obtain ⟨k, g, hk, hg, hlast⟩ := hp.found j f hf
  obtain ⟨c, hc, hkind, -⟩ := hp.array j f hf
  have hkj : k = j := hnames.eq_of_name hf hg (lastNamed_name hlast)
  exact ⟨hkj ▸ hk, c, hc, hkind⟩

end Distinct

theorem convertRows_eq {api : ResultApi} {toDouble : Bool} {res : ResultSet}
    (hnames : DistinctNames res.fields) :
    passRows api toDouble (lands toDouble res.fields) res = convertRows api toDouble res := by
  have hstep : passStep api toDouble (lands toDouble res.fields) res
      = passStep api toDouble (fun _ => true) res := by
    funext i
    rw [passStep, passStep]
    apply Outcome.bind_congr
    intro row _
    rw [hnames.passRow_eq row 0 fun _ hf => hf]
  rw [convertRows, passRows, passRows, hstep]

/-! ### Delivery -/

/-- **All columns are delivered exactly if their names are distinct.** -/
theorem columnsDelivered_iff {api : ResultApi} (hapi : api.Resolves) {toDouble : Bool}
    {res : ResultSet} {p : Plhs}
    (hcreate : (createFields api toDouble res.numRows (.start (res.fields.map MysqlField.name)) 0
      res.fields).out = .ok p) :
    ColumnsDelivered api toDouble res p ↔ DistinctNames res.fields := by
  have hplaced : Placed api toDouble res.fields res.numRows p res.fields.length := by
    rcases createFields_cases hapi toDouble res.fields res.numRows with
      ⟨-, q, hq, hplaced⟩ | ⟨-, e, he⟩
    · rw [hq] at hcreate
      cases hcreate
      exact hplaced
    · rw [he] at hcreate
      cases hcreate
  constructor
  · intro hall
    -- two columns with one name would both own the array that is found under it
    apply List.nodup_iff_getElem?_ne_getElem?.mpr
    intro j k hjk hk heq
    rw [List.length_map] at hk
    have hf := List.getElem?_eq_getElem (Nat.lt_trans hjk hk)
    have hg := List.getElem?_eq_getElem hk
    rw [List.getElem?_map, List.getElem?_map, hf, hg, Option.map_some, Option.map_some] at heq
    have hj' := (hall.own j _ hf).1
    rw [Option.some.inj heq, (hall.own k _ hg).1] at hj'
    exact Nat.ne_of_gt hjk (Option.some.inj hj')
  · intro hnames
    have hload := loadRows_alike hplaced.ready fun _ => hplaced.entered
    refine ⟨fun j f hf => hnames.own hplaced.ready hf, ?_, ?_, ?_⟩
    · rw [hload.stop_eq, convertRows_eq hnames]
    · intro q hq j f hf
      obtain ⟨-, -, hready, -⟩ := hload.of_ok hq
      exact hnames.own hready hf
    · intro q hq i j f hi hf
      obtain ⟨-, -, -, hentered⟩ := hload.of_ok hq
      exact (hentered hnames).loaded i j f hi hf (Or.inl hi)

/-! ### Columns with one name -/

/-- A column without flags. -/
def plainField (name : CStr) (type : FieldType) : MysqlField where
  name := name
  type := type
  flags := 0
  charsetnr := 33
  maxLength := 1

/-- A result set of one row. -/
def oneRow (fields : List MysqlField) (row : Row) (h : row.length = fields.length) : ResultSet where
  fields := fields
  numRows := 1
  fetch i := if i = 0 then some row else none
  fetch_length := by
    intro i row' hrow
    split at hrow
    · exact Option.some.inj hrow ▸ h
    · cases hrow

def nameId : CStr := ⟨[105, 100], by decide⟩
def nameNo : CStr := ⟨[110, 111], by decide⟩

/-- `SELECT 'a' AS id, 1 AS no` -/
def twoNames : ResultSet :=
  oneRow [plainField nameId .varString, plainField nameNo .longlong]
    [some ⟨[97], []⟩, some ⟨[49], []⟩] rfl

theorem twoNames_delivered :
    ∃ p, (createFields plainResultApi false 1 (.start [nameId, nameNo]) 0 twoNames.fields).out = .ok p ∧
      ColumnsDelivered plainResultApi false twoNames p :=
  ⟨_, rfl, (columnsDelivered_iff plainResultApi_resolves rfl).mpr (by
    show List.Nodup _
    decide)⟩

/-- `SELECT 'a' AS id, 1 AS id` -/
def sameName : ResultSet :=
  oneRow [plainField nameId .varString, plainField nameId .longlong]
    [some ⟨[97], []⟩, some ⟨[49], []⟩] rfl

/-- The text is written as a cell to the array of integers. -/
theorem sameName_undelivered :
    ∃ p, (createFields plainResultApi false 1 (.start [nameId, nameId]) 0 sameName.fields).out = .ok p ∧
      p.getField plainResultApi nameId = some 1 ∧
      loadRows plainResultApi false sameName p = .undefined ∧
      ¬ColumnsDelivered plainResultApi false sameName p := by
  refine ⟨_, rfl, rfl, ?_, ?_⟩
  · rfl
  · intro h
    have hown := (h.own 0 _ rfl).1
    cases hown

end Mym
