import Mym.ResultSet

/-!
# What loading a result set comes to

`convert` is the value that a field of a row is turned into.  A numeric value goes into the array that has
been created for its column, and a cell into the array that is found under the name of the column,
which is the one of the last column with this name.

`loadRows_alike` says that loading ends as `passRows` does, which converts the values in their order and asks
whether the array that is found can take them.
-/

namespace Mym

/-! ### Kinds of containers -/

inductive ContainerKind where
  | integer (cls : MxClass)
  | double
  | cell
  deriving DecidableEq

namespace Container

def kind : Container → ContainerKind
  | int64 cls _ => .integer cls
  | double _ => .double
  | cell _ => .cell

def length : Container → Nat
  | int64 _ data => data.length
  | double data => data.length
  | cell data => data.length

/-- What is stored in row `i`, if anything is. -/
def get : Container → Nat → Option Value
  | int64 _ data, i => data[i]?.map .word
  | double data, i => data[i]?.map .double
  | cell data, i => data[i]?.join.map .cell

end Container

/-- Containers of this kind take such a value. -/
def ContainerKind.Takes : ContainerKind → Value → Prop
  | integer _, .word _ => True
  | double, .double _ => True
  | cell, .cell _ => True
  | _, _ => False

/-- What is read of an entry that has been written, and of the others. -/
theorem read_set {α β : Type} {l : List α} {i : Nat} (hi : i < l.length) (a : α)
    (read : Option α → Option β) :
    read (l.set i a)[i]? = read (some a) ∧
      ∀ i', i' ≠ i → read (l.set i a)[i']? = read l[i']? := by
  refine ⟨by rw [List.getElem?_set_self hi], ?_⟩
  intro i' hne
  rw [List.getElem?_set_ne (Ne.symm hne)]

theorem Container.put_of_takes {c : Container} {i : Nat} {v : Value} (hv : c.kind.Takes v)
    (hi : i < c.length) :
    ∃ d, c.put i v = .ok d ∧ d.kind = c.kind ∧ d.length = c.length ∧ d.get i = some v ∧
      ∀ i', i' ≠ i → d.get i' = c.get i' := by
  cases c with
  | int64 cls data =>
    cases v with
    | word w =>
      have hi : i < data.length := hi
      refine ⟨.int64 cls (data.set i w), ?_, rfl, List.length_set,
        read_set hi w fun e => e.map Value.word⟩
      rw [put, writeEntry_of_lt hi]
      rfl
    | _ => exact absurd hv id
  | double data =>
    cases v with
    | double x =>
      have hi : i < data.length := hi
      refine ⟨.double (data.set i x), ?_, rfl, List.length_set,
        read_set hi x fun e => e.map Value.double⟩
      rw [put, writeEntry_of_lt hi]
      rfl
    | _ => exact absurd hv id
  | cell data =>
    cases v with
    | cell x =>
      have hi : i < data.length := hi
      refine ⟨.cell (data.set i (some x)), ?_, rfl, List.length_set,
        read_set hi (some x) fun e => e.join.map Value.cell⟩
      rw [put, writeEntry_of_lt hi]
      rfl
    | _ => exact absurd hv id

theorem Container.put_of_not_takes {c : Container} {i : Nat} {v : Value} (hv : ¬c.kind.Takes v) :
    c.put i v = .undefined := by
  cases c with
  | int64 cls data =>
    cases v with
    | word w => exact absurd trivial hv
    | _ => rfl
  | double data =>
    cases v with
    | double x => exact absurd trivial hv
    | _ => rfl
  | cell data =>
    cases v with
    | cell x => exact absurd trivial hv
    | _ => rfl

/-! ### Columns and their containers -/

section Columns

variable (api : ResultApi) (toDouble : Bool)

/-- The kind of container that the load loop writes for a column. -/
def loadedKind (f : MysqlField) : ContainerKind :=
  if isBigint toDouble f then .integer (if f.hasFlag unsignedFlag then .uint64 else .int64)
  else if canConvert f.type then .double
  else .cell

/-- The value that a field of a row is turned into.  Where a number cannot be read its entry stays
zero. -/
def convert (f : MysqlField) (s : Option FieldValue) : Result Value :=
  if isBigint toDouble f then do
    let w ← field2int api s f
    .ok (.word (w.getD 0))
  else if canConvert f.type then do
    let x ← field2num api s f.type
    .ok (.double x)
  else if f.type == .blob && f.charsetnr == binaryCharset then do
    let v ← fetchedBlob api s
    .ok (.cell v)
  else if f.type == .string && f.hasFlag binaryFlag then do
    let v ← fetchedBytes s
    .ok (.cell v)
  else do
    let v ← fetchedText api s
    .ok (.cell v)

variable (fields : List MysqlField)

/-- The last column with a name. -/
def lastNamed (name : CStr) : Option MysqlField := fields.reverse.find? fun g => g.name = name

/-- The container that is written can take what it is given: cells go to the last column with the
name. -/
def lands (f : MysqlField) : Bool :=
  loadedKind toDouble f != .cell ||
    (lastNamed fields f.name).map (loadedKind toDouble) == some .cell

variable (landing : MysqlField → Bool)

/-- A value is converted, and written if it lands. -/
def passValue (f : MysqlField) (s : Option FieldValue) : Result Value := do
  let v ← convert api toDouble f s
  if landing f then .ok v else .undefined

/-- The values of a row from column `j` on. -/
def passRow (row : Row) (j : Nat) : List MysqlField → Result Unit
  | [] => .ok ()
  | f :: fs => do
    let s ← readEntry row j
    let _ ← passValue api toDouble landing f s
    passRow row (j + 1) fs

def passStep (res : ResultSet) (i : Nat) : Result Nat := do
  let row ← fetchRow res i
  let _ ← passRow api toDouble landing row 0 res.fields
  .ok (i + 1)

/-- The rows in their order. -/
def passRows (res : ResultSet) : Result Unit := do
  let _ ← Outcome.iter (passStep api toDouble landing res) res.numRows 0
  .ok ()

end Columns

theorem convert_takes {api : ResultApi} {toDouble : Bool} {f : MysqlField} {s : Option FieldValue}
    {v : Value} (h : convert api toDouble f s = .ok v) : (loadedKind toDouble f).Takes v := by
  unfold convert at h
  unfold loadedKind
  split
  · next hbig =>
    rw [if_pos hbig] at h
    obtain ⟨w, -, h⟩ := Outcome.bind_eq_ok h
    cases h
    trivial
  · next hbig =>
    rw [if_neg hbig] at h
    split
    · next hnum =>
      rw [if_pos hnum] at h
      obtain ⟨x, -, h⟩ := Outcome.bind_eq_ok h
      cases h
      trivial
    · next hnum =>
      rw [if_neg hnum] at h
      split at h
      · obtain ⟨x, -, h⟩ := Outcome.bind_eq_ok h
        cases h
        trivial
      · split at h
        · obtain ⟨x, -, h⟩ := Outcome.bind_eq_ok h
          cases h
          trivial
        · obtain ⟨x, -, h⟩ := Outcome.bind_eq_ok h
          cases h
          trivial

theorem lastNamed_snoc (fields : List MysqlField) (f : MysqlField) (name : CStr) :
    lastNamed (fields ++ [f]) name = if f.name = name then some f else lastNamed fields name := by
  rw [lastNamed, List.reverse_append, List.reverse_singleton, List.singleton_append, List.find?_cons]
  by_cases h : f.name = name
  · rw [if_pos h, decide_eq_true h]
  · rw [if_neg h, decide_eq_false h]
    rfl

theorem lastNamed_name {fields : List MysqlField} {name : CStr} {g : MysqlField}
    (h : lastNamed fields name = some g) : g.name = name := by
  have := List.find?_some h
  exact of_decide_eq_true this

/-! ### One value -/

/-- What is stored for row `i` in the array of column `j`. -/
def Plhs.entry (p : Plhs) (i j : Nat) : Option Value := (p.arrays[j]?).bind fun c => c.get i

/-- The struct as the load loop meets it: each column has its array and its pointers, and under its
name the array of the last column with the name is found. -/
structure Ready (api : ResultApi) (toDouble : Bool) (fields : List MysqlField) (nrow : Nat)
    (p : Plhs) : Prop where
  found : ∀ (j : Nat) (f : MysqlField), fields[j]? = some f →
    ∃ k g, p.getField api f.name = some k ∧ fields[k]? = some g ∧ lastNamed fields f.name = some g
  iPr_own : ∀ (j : Nat) (f : MysqlField), fields[j]? = some f → isBigint toDouble f = true →
    p.iPr[j]? = some (some j)
  pr_own : ∀ (j : Nat) (f : MysqlField), fields[j]? = some f → isBigint toDouble f = false →
    canConvert f.type = true → p.pr[j]? = some (some j)
  array : ∀ (j : Nat) (f : MysqlField), fields[j]? = some f →
    ∃ c, p.arrays[j]? = some c ∧ c.kind = loadedKind toDouble f ∧ c.length = nrow

/-- From `p`, the value `v` has been written to row `i` of array `k`.  For a number that cannot be read
nothing is written. -/
structure LoadedInto (api : ResultApi) (toDouble : Bool) (fields : List MysqlField) (nrow : Nat)
    (p q : Plhs) (k i : Nat) (v : Value) : Prop where
  ready : Ready api toDouble fields nrow q
  entry : q.entry i k = some v ∨ v = .word 0 ∧ q = p
  frame : ∀ i' j', i' ≠ i ∨ j' ≠ k → q.entry i' j' = p.entry i' j'

section Value

variable {api : ResultApi} {toDouble : Bool} {fields : List MysqlField} {nrow : Nat} {p : Plhs}
  (hp : Ready api toDouble fields nrow p) {i k : Nat} (hi : i < nrow) {g : MysqlField}
  (hg : fields[k]? = some g) {v : Value}

include hp hi hg

theorem Ready.store_of_takes (hv : (loadedKind toDouble g).Takes v) :
    ∃ q, p.store (some k) i v = .ok q ∧ LoadedInto api toDouble fields nrow p q k i v := by
  obtain ⟨c, hc, hkind, hlen⟩ := hp.array k g hg
  obtain ⟨d, hput, hdkind, hdlen, hself, hframe⟩ :=
    Container.put_of_takes (hkind ▸ hv) (hlen.symm ▸ hi)
  have hk : k < p.arrays.length := (List.getElem?_eq_some_iff.mp hc).1
  refine ⟨{ p with arrays := p.arrays.set k d }, ?_, ⟨hp.found, hp.iPr_own, hp.pr_own, ?_⟩, ?_, ?_⟩
  · rw [Plhs.store, readEntry_eq_ok.mpr hc, Outcome.ok_bind, hput]
    rfl
  · intro j f hf
    by_cases hjk : j = k
    · subst hjk
      cases hg.symm.trans hf
      exact ⟨d, List.getElem?_set_self hk, hdkind.trans hkind, hdlen.trans hlen⟩
    · obtain ⟨e, he, hrest⟩ := hp.array j f hf
      exact ⟨e, by rw [List.getElem?_set_ne (Ne.symm hjk), he], hrest⟩
  · left
    rw [Plhs.entry, List.getElem?_set_self hk]
    exact hself
  · intro i' j' hne
    by_cases hjk : j' = k
    · subst hjk
      rw [Plhs.entry, Plhs.entry, List.getElem?_set_self hk, hc]
      exact hframe i' (hne.resolve_right fun h => h rfl)
    · rw [Plhs.entry, Plhs.entry, List.getElem?_set_ne (Ne.symm hjk)]

omit hi in
theorem Ready.store_of_not_takes (hv : ¬(loadedKind toDouble g).Takes v) :
    p.store (some k) i v = .undefined := by
  obtain ⟨c, hc, hkind, -⟩ := hp.array k g hg
  rw [Plhs.store, readEntry_eq_ok.mpr hc, Outcome.ok_bind, Container.put_of_not_takes (hkind ▸ hv)]
  rfl

end Value

/-- Where the value of column `j` goes. -/
def GoesTo (toDouble : Bool) (fields : List MysqlField) (f : MysqlField) (j k : Nat) : Prop :=
  if loadedKind toDouble f = .cell then ∃ g, fields[k]? = some g ∧ g.name = f.name else k = j

/-- Numbers land, in the array of their own column. -/
theorem number_lands {toDouble : Bool} {fields : List MysqlField} {f : MysqlField}
    (hkind : loadedKind toDouble f ≠ .cell) (j : Nat) :
    lands toDouble fields f = true ∧ GoesTo toDouble fields f j j := by
  constructor
  · rw [lands, bne_iff_ne.mpr hkind, Bool.true_or]
  · rw [GoesTo, if_neg hkind]

section Load

variable {api : ResultApi} {toDouble : Bool} {fields : List MysqlField} {nrow : Nat} {p : Plhs}
  (hp : Ready api toDouble fields nrow p) {i j : Nat} (hi : i < nrow) {f : MysqlField}
  (hf : fields[j]? = some f)

include hp hi hf

/-- A cell is written to the array that is found under the name. -/
theorem Ready.storeCell_alike (hkind : loadedKind toDouble f = .cell) (x : Result Fetched) :
    Outcome.Alike
      (fun q v => ∃ k, GoesTo toDouble fields f j k ∧ LoadedInto api toDouble fields nrow p q k i v)
      (x >>= fun v => p.store (p.getField api f.name) i (.cell v))
      ((x >>= fun v => .ok (.cell v)) >>= fun v =>
        if lands toDouble fields f then .ok v else .undefined) := by
  obtain ⟨k, g, hfound, hg, hlast⟩ := hp.found j f hf
  rw [Outcome.bind_assoc, hfound]
  refine (Outcome.alike_refl x).bind fun v v' _ _ hv => ?_
  subst hv
  rw [Outcome.ok_bind]
  have hlands : lands toDouble fields f = true ↔ loadedKind toDouble g = .cell := by
    rw [lands, hkind, hlast]
    simp
  by_cases hcell : loadedKind toDouble g = .cell
  · have htakes : (loadedKind toDouble g).Takes (.cell v) := by
      rw [hcell]
      trivial
    obtain ⟨q, hq, hloaded⟩ := hp.store_of_takes hi hg htakes
    rw [hq, if_pos (hlands.mpr hcell)]
    refine Outcome.alike_ok ⟨k, ?_, hloaded⟩
    rw [GoesTo, if_pos hkind]
    exact ⟨g, hg, lastNamed_name hlast⟩
  · have htakes : ¬(loadedKind toDouble g).Takes (.cell v) := by
      intro h
      cases hg' : loadedKind toDouble g with
      | cell => exact hcell hg'
      | integer cls =>
        rw [hg'] at h
        exact h
      | double =>
        rw [hg'] at h
        exact h
    rw [hp.store_of_not_takes hg htakes, if_neg (mt hlands.mp hcell)]
    exact Or.inr ⟨.undefined, rfl, rfl⟩

/-- A number is written through the pointer of its column. -/
theorem Ready.storeNumber_alike (hkind : loadedKind toDouble f ≠ .cell) {v : Value}
    (hv : (loadedKind toDouble f).Takes v) :
    Outcome.Alike
      (fun q v => ∃ k, GoesTo toDouble fields f j k ∧ LoadedInto api toDouble fields nrow p q k i v)
      (p.store (some j) i v) (if lands toDouble fields f then .ok v else .undefined) := by
  obtain ⟨hlands, hgoes⟩ : lands toDouble fields f = true ∧ GoesTo toDouble fields f j j :=
    number_lands hkind j
  obtain ⟨q, hq, hloaded⟩ := hp.store_of_takes hi hf hv
  rw [hq, if_pos hlands]
  exact Outcome.alike_ok ⟨j, hgoes, hloaded⟩

/-- **One value**: it is converted, and written where it goes. -/
theorem Ready.loadValue_alike (s : Option FieldValue) :
    Outcome.Alike
      (fun q v => ∃ k, GoesTo toDouble fields f j k ∧ LoadedInto api toDouble fields nrow p q k i v)
      (loadValue api toDouble p i j f s) (passValue api toDouble (lands toDouble fields) f s) := by
  unfold loadValue passValue convert
  by_cases hbig : isBigint toDouble f = true
  · have hkind : loadedKind toDouble f
        = .integer (if f.hasFlag unsignedFlag then .uint64 else .int64) := if_pos hbig
    have hcell : loadedKind toDouble f ≠ .cell := by
      rw [hkind]
      intro h
      cases h
    rw [if_pos hbig, if_pos hbig, Outcome.bind_assoc,
      readEntry_eq_ok.mpr (hp.iPr_own j f hf hbig), Outcome.ok_bind]
    refine (Outcome.alike_refl (field2int api s f)).bind fun w w' _ _ hw => ?_
    subst hw
    cases w with
    | none =>
      -- the entry keeps the zero it was created with
      obtain ⟨hlands, hgoes⟩ : lands toDouble fields f = true ∧ GoesTo toDouble fields f j j :=
        number_lands hcell j
      rw [Outcome.ok_bind, if_pos hlands]
      exact Outcome.alike_ok ⟨j, hgoes, hp, Or.inr ⟨rfl, rfl⟩, fun _ _ _ => rfl⟩
    | some w =>
      apply hp.storeNumber_alike hi hf hcell
      rw [hkind]
      trivial
  rw [if_neg hbig, if_neg hbig]
  by_cases hnum : canConvert f.type = true
  · have hkind : loadedKind toDouble f = .double := by
      rw [loadedKind, if_neg hbig, if_pos hnum]
    have hcell : loadedKind toDouble f ≠ .cell := by
      rw [hkind]
      intro h
      cases h
    rw [if_pos hnum, if_pos hnum, Outcome.bind_assoc]
    refine (Outcome.alike_refl (field2num api s f.type)).bind fun x x' _ _ hx => ?_
    subst hx
    rw [readEntry_eq_ok.mpr (hp.pr_own j f hf (Bool.eq_false_iff.mpr hbig) hnum), Outcome.ok_bind]
    apply hp.storeNumber_alike hi hf hcell
    rw [hkind]
    trivial
  have hkind : loadedKind toDouble f = .cell := by
    rw [loadedKind, if_neg hbig, if_neg hnum]
  rw [if_neg hnum, if_neg hnum]
  by_cases hblob : (f.type == .blob && f.charsetnr == binaryCharset) = true
  · rw [if_pos hblob, if_pos hblob]
    exact hp.storeCell_alike hi hf hkind _
  rw [if_neg hblob, if_neg hblob]
  by_cases hbytes : (f.type == .string && f.hasFlag binaryFlag) = true
  · rw [if_pos hbytes, if_pos hbytes]
    exact hp.storeCell_alike hi hf hkind _
  · rw [if_neg hbytes, if_neg hbytes]
    exact hp.storeCell_alike hi hf hkind _

end Load

/-! ### Rows -/

/-- No two columns have one name. -/
def DistinctNames (fields : List MysqlField) : Prop := (fields.map MysqlField.name).Nodup

theorem DistinctNames.eq_of_name {fields : List MysqlField} (h : DistinctNames fields) {j k : Nat}
    {f g : MysqlField} (hf : fields[j]? = some f) (hg : fields[k]? = some g) (hname : g.name = f.name) :
    k = j := by
  have hk : k < (fields.map MysqlField.name).length := by
    rw [List.length_map]
    exact (List.getElem?_eq_some_iff.mp hg).1
  apply (List.getElem?_inj hk h).mp
  rw [List.getElem?_map, List.getElem?_map, hf, hg, Option.map_some, Option.map_some, hname]

/-- Row `i'`, column `j'` comes before row `i`, column `j`. -/
def Before (i' j' i j : Nat) : Prop := i' < i ∨ i' = i ∧ j' < j

/-- The values before row `i`, column `j` are in the arrays of their columns, and the integers from there
on are zero. -/
structure Entered (api : ResultApi) (toDouble : Bool) (res : ResultSet) (q : Plhs) (i j : Nat) :
    Prop where
  loaded : ∀ (i' j' : Nat) (f : MysqlField), i' < res.numRows → res.fields[j']? = some f →
    Before i' j' i j → ∃ row s v, res.fetch i' = some row ∧ row[j']? = some s ∧
      convert api toDouble f s = .ok v ∧ q.entry i' j' = some v
  fresh : ∀ (i' j' : Nat) (f : MysqlField), i' < res.numRows → res.fields[j']? = some f →
    ¬Before i' j' i j → isBigint toDouble f = true → q.entry i' j' = some (.word 0)

section Rows

variable {api : ResultApi} {toDouble : Bool} {res : ResultSet} {p q : Plhs} {i j : Nat}

/-- One more value has been entered. -/
theorem Entered.next (he : Entered api toDouble res p i j) (hi : i < res.numRows) {row : Row}
    (hrow : res.fetch i = some row) {f : MysqlField} (hf : res.fields[j]? = some f)
    {s : Option FieldValue} (hs : row[j]? = some s) {v : Value}
    (hv : convert api toDouble f s = .ok v)
    (hq : LoadedInto api toDouble res.fields res.numRows p q j i v) :
    Entered api toDouble res q i (j + 1) where
  loaded i' j' g hi' hg hbefore := by
    by_cases hhere : i' = i ∧ j' = j
    · obtain ⟨rfl, rfl⟩ := hhere
      cases hf.symm.trans hg
      refine ⟨row, s, v, hrow, hs, hv, ?_⟩
      rcases hq.entry with hentry | ⟨rfl, rfl⟩
      · exact hentry
      · have hbig : isBigint toDouble f = true := by
          have htakes := convert_takes hv
          unfold loadedKind at htakes
          by_contra hbig
          rw [if_neg hbig] at htakes
          split at htakes
          · exact htakes
          · exact htakes
        exact he.fresh i' j' f hi' hf (by rintro (h | h) <;> omega) hbig
    · have hold : Before i' j' i j := by
        rcases hbefore with h | ⟨rfl, h⟩
        · exact Or.inl h
        · exact Or.inr ⟨rfl, by omega⟩
      obtain ⟨row', s', v', hrow', hs', hv', hentry⟩ := he.loaded i' j' g hi' hg hold
      refine ⟨row', s', v', hrow', hs', hv', ?_⟩
      rw [hq.frame i' j' (by omega), hentry]
  fresh i' j' g hi' hg hafter hbig := by
    have hold : ¬Before i' j' i j := by
      intro hor
      rcases hor with h | ⟨rfl, h⟩
      · exact hafter (Or.inl h)
      · exact hafter (Or.inr ⟨rfl, by omega⟩)
    have hne : i' ≠ i ∨ j' ≠ j := by
      by_contra hboth
      rw [not_or, not_not, not_not] at hboth
      obtain ⟨rfl, rfl⟩ := hboth
      exact hafter (Or.inr ⟨rfl, Nat.lt_succ_self _⟩)
    rw [hq.frame i' j' hne, he.fresh i' j' g hi' hg hold hbig]

theorem LoadedInto.eq_of_distinct (hnames : DistinctNames res.fields) {f : MysqlField}
    (hf : res.fields[j]? = some f) {k : Nat} (hk : GoesTo toDouble res.fields f j k) : k = j := by
  unfold GoesTo at hk
  split at hk
  · obtain ⟨g, hg, hname⟩ := hk
    exact hnames.eq_of_name hf hg hname
  · exact hk

/-- **A row** from column `j` on. -/
theorem loadRow_alike {row : Row} (hrow : res.fetch i = some row) (hi : i < res.numRows)
    {fs : List MysqlField} (hfs : res.fields.drop j = fs)
    (hp : Ready api toDouble res.fields res.numRows p)
    (he : DistinctNames res.fields → Entered api toDouble res p i j) :
    Outcome.Alike
      (fun q _ => Ready api toDouble res.fields res.numRows q ∧
        (DistinctNames res.fields → Entered api toDouble res q i res.fields.length))
      (loadRow api toDouble row i p j fs) (passRow api toDouble (lands toDouble res.fields) row j fs) := by
  induction fs generalizing j p with
  | nil =>
    have hend : res.fields.length ≤ j := List.drop_eq_nil_iff.mp hfs
    refine Outcome.alike_ok ⟨hp, fun hnames => ⟨?_, ?_⟩⟩
    · intro i' j' f hi' hf hbefore
      have hj' := (List.getElem?_eq_some_iff.mp hf).1
      refine (he hnames).loaded i' j' f hi' hf (hbefore.imp_right fun h => ⟨h.1, by omega⟩)
    · intro i' j' f hi' hf hafter
      have hj' := (List.getElem?_eq_some_iff.mp hf).1
      exact (he hnames).fresh i' j' f hi' hf fun h => hafter (h.imp_right fun h => ⟨h.1, hj'⟩)
  | cons f fs ih =>
    obtain ⟨hj, hf, hrest⟩ := of_drop_eq_cons hfs
    have hlen : j < row.length := by
      rw [res.fetch_length i row hrow]
      exact hj
    have hs : row[j]? = some row[j] := List.getElem?_eq_getElem hlen
    rw [loadRow, passRow, readEntry_of_lt hlen, Outcome.ok_bind, Outcome.ok_bind]
    refine (hp.loadValue_alike hi hf row[j]).bind fun q v _ hv hq => ?_
    obtain ⟨k, hk, hq⟩ := hq
    obtain ⟨v', hconvert, hlands⟩ := Outcome.bind_eq_ok hv
    refine ih hrest hq.ready fun hnames => ?_
    have hkj := LoadedInto.eq_of_distinct hnames hf hk
    subst hkj
    have hvv : v' = v := by
      split at hlands
      · exact Outcome.ok.inj hlands
      · cases hlands
    subst hvv
    exact (he hnames).next hi hrow hf hs hconvert hq

/-- **All rows.** -/
theorem loadRows_alike (hp : Ready api toDouble res.fields res.numRows p)
    (he : DistinctNames res.fields → Entered api toDouble res p 0 0) :
    Outcome.Alike
      (fun q _ => Ready api toDouble res.fields res.numRows q ∧
        (DistinctNames res.fields → Entered api toDouble res q res.numRows 0))
      (loadRows api toDouble res p) (passRows api toDouble (lands toDouble res.fields) res) := by
  have hstep : ∀ k < res.numRows, ∀ (s : Nat × Plhs) (t : Nat),
      s.1 = k ∧ t = k ∧ Ready api toDouble res.fields res.numRows s.2 ∧
        (DistinctNames res.fields → Entered api toDouble res s.2 k 0) →
      Outcome.Alike
        (fun s t => s.1 = k + 1 ∧ t = k + 1 ∧ Ready api toDouble res.fields res.numRows s.2 ∧
          (DistinctNames res.fields → Entered api toDouble res s.2 (k + 1) 0))
        (loadStep api toDouble res s) (passStep api toDouble (lands toDouble res.fields) res t) := by
    intro k hk ⟨i, p⟩ t ⟨hi, ht, hready, hentered⟩
    dsimp only at hi hready hentered
    subst hi ht
    rw [loadStep, passStep]
    dsimp only
    refine (Outcome.alike_refl (fetchRow res t)).bind fun row row' hrow _ hsame => ?_
    subst hsame
    have hfetch : res.fetch t = some row := by
      unfold fetchRow at hrow
      split at hrow
      · next row' h => rw [h, Outcome.ok.inj hrow]
      · cases hrow
    refine (loadRow_alike hfetch hk rfl hready hentered).bind fun q _ _ _ hq => ?_
    refine Outcome.alike_ok ⟨rfl, rfl, hq.1, fun hnames => ⟨?_, ?_⟩⟩
    · intro i' j' f hi' hf hbefore
      have hj' := (List.getElem?_eq_some_iff.mp hf).1
      refine (hq.2 hnames).loaded i' j' f hi' hf ?_
      rcases hbefore with h | ⟨-, h⟩
      · rcases Nat.lt_succ_iff_lt_or_eq.mp h with h | h
        · exact Or.inl h
        · exact Or.inr ⟨h, hj'⟩
      · cases h
    · intro i' j' f hi' hf hafter
      refine (hq.2 hnames).fresh i' j' f hi' hf ?_
      intro hor
      rcases hor with h | ⟨h, -⟩
      · exact hafter (Or.inl (by omega))
      · exact hafter (Or.inl (by omega))
  rw [loadRows, passRows]
  refine (Outcome.iter_alike hstep ⟨rfl, rfl, hp, he⟩).bind fun s t _ _ hst => ?_
  exact Outcome.alike_ok hst.2.2

end Rows

end Mym
