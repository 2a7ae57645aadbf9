import Mym.Loading

/-!
# The struct for a result set

The creation loop makes an array for each column and sets it as the field with the name of the column.
Of columns with one name the last takes the field, while the arrays of the others stay where the
pointers lead.  `createFields_cases` says that the loop either ends with a struct that is ready for
loading, or frees the result set for want of an array.
-/

namespace Mym

/-- A name of the struct stands for a field with this name. -/
def ResultApi.Resolves (api : ResultApi) : Prop :=
  ∀ names name, name ∈ names → ∃ k, api.fieldNumber names name = some k ∧ names[k]? = some name

/-- A string of ASCII characters as a row of 16-bit characters. -/
def charRow (s : CStr) : FullArray where
  classId := MxClass.char.id
  elementSize := MxClass.char.elementSize
  dims := [1, s.1.length]
  re := s.1.flatMap fun b => [b, 0]
  im := none
  re_length := by simp [MxClass.elementSize, List.length_flatMap, Nat.mul_comm]
  im_length := fun _ h => by cases h

/-- The whole number in a text that begins with a digit or a minus. -/
def scanWhole (s : CStr) : Option Int :=
  if s.1.head?.any fun b => isDigit b || b == minusSign then some (parseInt s.1) else none

/-- An API that creates every array, finds a field by its name, and reads whole numbers. -/
def plainResultApi : ResultApi where
  createStructMatrix _ := true
  createNumericArray _ _ := true
  createDoubleMatrix _ := true
  createCellMatrix _ := true
  fieldNumber names name := names.findIdx? fun other => other = name
  createString s := .full (charRow s)
  scanLong _ s := (scanWhole s).map (BitVec.ofInt 64)
  scanDouble s := (scanWhole s).map Ieee.ofInt
  memory := documentedApi
  zlib := runZlib
  use32 := false

theorem plainResultApi_resolves : plainResultApi.Resolves := by
  intro names name hname
  cases h : names.findIdx? fun other => other = name with
  | none =>
    have hno := List.findIdx?_eq_none_iff.mp h name hname
    rw [decide_eq_true rfl] at hno
    cases hno
  | some k =>
    refine ⟨k, h, ?_⟩
    obtain ⟨hlt, hk, -⟩ := List.findIdx?_eq_some_iff_getElem.mp h
    rw [List.getElem?_eq_getElem hlt, of_decide_eq_true hk]

/-! ### Fields -/

section Slots

variable {api : ResultApi} (hapi : api.Resolves) {p : Plhs} {name : CStr}

include hapi

theorem Plhs.getField_setField_self (hslots : p.slots.length = p.names.length)
    (hname : name ∈ p.names) (v : Nat) : (p.setField api name v).getField api name = some v := by
  obtain ⟨k, hk, hget⟩ := hapi p.names name hname
  have hlt : k < p.slots.length := by
    rw [hslots]
    exact (List.getElem?_eq_some_iff.mp hget).1
  rw [getField, setField, hk]
  dsimp only
  rw [hk, Option.bind_some, List.getElem?_set_self hlt]
  rfl

theorem Plhs.getField_setField_ne {other : CStr} (hname : name ∈ p.names) (hother : other ∈ p.names)
    (hne : other ≠ name) (v : Nat) :
    (p.setField api name v).getField api other = p.getField api other := by
  obtain ⟨k, hk, hget⟩ := hapi p.names name hname
  obtain ⟨k', hk', hget'⟩ := hapi p.names other hother
  have hkk : k ≠ k' := by
    intro h
    rw [← h, hget] at hget'
    exact hne (Option.some.inj hget').symm
  rw [getField, getField, setField, hk]
  dsimp only
  rw [hk', Option.bind_some, Option.bind_some, List.getElem?_set_ne hkk]

end Slots

section Update

variable {api : ResultApi} (p : Plhs) (name : CStr) (v : Nat)

@[simp] theorem Plhs.setField_names : (p.setField api name v).names = p.names := by
  unfold setField
  split <;> rfl

@[simp] theorem Plhs.setField_arrays : (p.setField api name v).arrays = p.arrays := by
  unfold setField
  split <;> rfl

@[simp] theorem Plhs.setField_pr : (p.setField api name v).pr = p.pr := by
  unfold setField
  split <;> rfl

@[simp] theorem Plhs.setField_iPr : (p.setField api name v).iPr = p.iPr := by
  unfold setField
  split <;> rfl

@[simp] theorem Plhs.setField_slots_length : (p.setField api name v).slots.length = p.slots.length := by
  unfold setField
  split
  · exact List.length_set
  · rfl

end Update

/-! ### One column -/

/-- The array for a column, if there is one. -/
def Creates (api : ResultApi) (toDouble : Bool) (nrow : Nat) (f : MysqlField) : Prop :=
  ∃ c, createContainer api toDouble nrow f = .ok c

/-- A new array: it has the kind that is loaded, a row for each row of the result set, and its integers
are zero. -/
structure NewArray (toDouble : Bool) (nrow : Nat) (f : MysqlField) (c : Container) : Prop where
  kind : c.kind = loadedKind toDouble f
  length : c.length = nrow
  zero : isBigint toDouble f = true → ∀ i < nrow, c.get i = some (.word 0)

theorem createContainer_new {api : ResultApi} {toDouble : Bool} {nrow : Nat} {f : MysqlField}
    {c : Container} (h : createContainer api toDouble nrow f = .ok c) :
    NewArray toDouble nrow f c := by
  unfold createContainer at h
  by_cases hbig : isBigint toDouble f = true
  · have hkind : loadedKind toDouble f
        = .integer (if f.hasFlag unsignedFlag then .uint64 else .int64) := if_pos hbig
    rw [if_pos hbig] at h
    dsimp only at h
    generalize (if f.hasFlag unsignedFlag then MxClass.uint64 else MxClass.int64) = cls at h hkind
    split at h
    · cases h
      refine ⟨hkind.symm, List.length_replicate, ?_⟩
      intro _ i hi
      rw [Container.get, List.getElem?_replicate_of_lt hi]
      rfl
    · cases h
  rw [if_neg hbig] at h
  by_cases hnum : canConvert f.type = true
  · rw [if_pos hnum] at h
    split at h
    · cases h
      refine ⟨?_, List.length_replicate, fun h => absurd h hbig⟩
      rw [loadedKind, if_neg hbig, if_pos hnum]
      rfl
    · cases h
  · rw [if_neg hnum] at h
    split at h
    · cases h
      refine ⟨?_, List.length_replicate, fun h => absurd h hbig⟩
      rw [loadedKind, if_neg hbig, if_neg hnum]
      rfl
    · cases h

/-- The struct after the first `j` columns. -/
structure Placed (api : ResultApi) (toDouble : Bool) (fields : List MysqlField) (nrow : Nat)
    (p : Plhs) (j : Nat) : Prop where
  names : p.names = fields.map MysqlField.name
  slots_length : p.slots.length = fields.length
  arrays_length : p.arrays.length = j
  pr_length : p.pr.length = fields.length
  iPr_length : p.iPr.length = fields.length
  found : ∀ (i : Nat) (f : MysqlField), i < j → fields[i]? = some f →
    ∃ k g, p.getField api f.name = some k ∧ fields[k]? = some g ∧
      lastNamed (fields.take j) f.name = some g
  iPr_own : ∀ (i : Nat) (f : MysqlField), i < j → fields[i]? = some f → isBigint toDouble f = true →
    p.iPr[i]? = some (some i)
  pr_own : ∀ (i : Nat) (f : MysqlField), i < j → fields[i]? = some f → isBigint toDouble f = false →
    canConvert f.type = true → p.pr[i]? = some (some i)
  array : ∀ (i : Nat) (f : MysqlField), i < j → fields[i]? = some f →
    ∃ c, p.arrays[i]? = some c ∧ NewArray toDouble nrow f c

theorem placed_start (api : ResultApi) (toDouble : Bool) (fields : List MysqlField) (nrow : Nat) :
    Placed api toDouble fields nrow (.start (fields.map MysqlField.name)) 0 where
  names := rfl
  slots_length := by rw [Plhs.start, List.length_replicate, List.length_map]
  arrays_length := rfl
  pr_length := by rw [Plhs.start, List.length_replicate, List.length_map]
  iPr_length := by rw [Plhs.start, List.length_replicate, List.length_map]
  found _ _ h := absurd h (Nat.not_lt_zero _)
  iPr_own _ _ h := absurd h (Nat.not_lt_zero _)
  pr_own _ _ h := absurd h (Nat.not_lt_zero _)
  array _ _ h := absurd h (Nat.not_lt_zero _)

/-- The pointers behind column `j`. -/
theorem placeContainer_eq {api : ResultApi} {toDouble : Bool} {p : Plhs} {j : Nat} {f : MysqlField}
    {c : Container} (hpr : j < p.pr.length) (hiPr : j < p.iPr.length) :
    placeContainer api toDouble p j f c = .ok (Plhs.setField api
      { p with
        arrays := p.arrays ++ [c]
        pr := if isBigint toDouble f then p.pr
          else p.pr.set j (if canConvert f.type then some p.arrays.length else none)
        iPr := if isBigint toDouble f then p.iPr.set j (some p.arrays.length) else p.iPr }
      f.name p.arrays.length) := by
  unfold placeContainer
  by_cases hbig : isBigint toDouble f = true
  · simp only [if_pos hbig, writeEntry_of_lt hiPr, Outcome.ok_bind]
  · simp only [if_neg hbig, Outcome.ok_bind]
    by_cases hnum : canConvert f.type = true
    · simp only [if_pos hnum, writeEntry_of_lt hpr, Outcome.ok_bind]
    · simp only [if_neg hnum, writeEntry_of_lt hpr, Outcome.ok_bind]

section Place

variable {api : ResultApi} (hapi : api.Resolves) {toDouble : Bool} {fields : List MysqlField}
  {nrow : Nat} {p : Plhs} {j : Nat} (hp : Placed api toDouble fields nrow p j) {f : MysqlField}
  (hf : fields[j]? = some f)

include hapi hp hf

/-- Under each name the array of the last column with the name is found. -/
theorem Placed.found_setField {q : Plhs} (hnames : q.names = p.names) (hslots : q.slots = p.slots)
    {i : Nat} {g : MysqlField} (hi : i < j + 1) (hg : fields[i]? = some g) :
    ∃ k g', (q.setField api f.name j).getField api g.name = some k ∧ fields[k]? = some g' ∧
      lastNamed (fields.take (j + 1)) g.name = some g' := by
  have hmem : ∀ {i : Nat} {g : MysqlField}, fields[i]? = some g → g.name ∈ q.names := by
    intro i g hg
    rw [hnames, hp.names]
    exact List.mem_map_of_mem (List.mem_of_getElem? hg)
  have htake : fields.take (j + 1) = fields.take j ++ [f] := by
    rw [List.take_add_one, hf]
    rfl
  rw [htake, lastNamed_snoc]
  by_cases hname : f.name = g.name
  · rw [if_pos hname, ← hname]
    refine ⟨j, f, ?_, hf, rfl⟩
    apply Plhs.getField_setField_self hapi
    · rw [hslots, hnames, hp.slots_length, hp.names, List.length_map]
    · exact hmem hf
  · have hold : i < j := by
      rcases Nat.lt_succ_iff_lt_or_eq.mp hi with h | rfl
      · exact h
      · cases hf.symm.trans hg
        exact absurd rfl hname
    obtain ⟨k, g', hk, hg', hlast⟩ := hp.found i g hold hg
    rw [if_neg hname]
    refine ⟨k, g', ?_, hg', hlast⟩
    rw [Plhs.getField_setField_ne hapi (hmem hf) (hmem hg) (Ne.symm hname), Plhs.getField, hnames,
      hslots]
    exact hk

/-- **One column.** -/
theorem Placed.place {c : Container} (hc : NewArray toDouble nrow f c) :
    ∃ q, placeContainer api toDouble p j f c = .ok q ∧ Placed api toDouble fields nrow q (j + 1) := by
  have hj : j < fields.length := (List.getElem?_eq_some_iff.mp hf).1
  have hpr : j < p.pr.length := hp.pr_length.symm ▸ hj
  have hiPr : j < p.iPr.length := hp.iPr_length.symm ▸ hj
  refine ⟨_, placeContainer_eq hpr hiPr, ?_⟩
  rw [hp.arrays_length]
  constructor
  · rw [Plhs.setField_names]
    exact hp.names
  · rw [Plhs.setField_slots_length]
    exact hp.slots_length
  · rw [Plhs.setField_arrays, List.length_append, hp.arrays_length]
    rfl
  · rw [Plhs.setField_pr]
    split
    · exact hp.pr_length
    · rw [List.length_set]
      exact hp.pr_length
  · rw [Plhs.setField_iPr]
    split
    · rw [List.length_set]
      exact hp.iPr_length
    · exact hp.iPr_length
  · intro i g hi hg
    refine hp.found_setField hapi hf ?_ ?_ hi hg
    · rfl
    · rfl
  · intro i g hi hg hbig
    rw [Plhs.setField_iPr]
    dsimp only
    rcases Nat.lt_succ_iff_lt_or_eq.mp hi with h | rfl
    · split
      · rw [List.getElem?_set_ne (Nat.ne_of_gt h)]
        exact hp.iPr_own i g h hg hbig
      · exact hp.iPr_own i g h hg hbig
    · cases hf.symm.trans hg
      rw [if_pos hbig, List.getElem?_set_self hiPr]
  · intro i g hi hg hbig hnum
    rw [Plhs.setField_pr]
    dsimp only
    rcases Nat.lt_succ_iff_lt_or_eq.mp hi with h | rfl
    · split
      · exact hp.pr_own i g h hg hbig hnum
      · rw [List.getElem?_set_ne (Nat.ne_of_gt h)]
        exact hp.pr_own i g h hg hbig hnum
    · cases hf.symm.trans hg
      rw [hbig, if_neg Bool.false_ne_true, if_pos hnum, List.getElem?_set_self hpr]
  · intro i g hi hg
    rw [Plhs.setField_arrays]
    rcases Nat.lt_succ_iff_lt_or_eq.mp hi with h | rfl
    · rw [List.getElem?_append_left (hp.arrays_length.symm ▸ h)]
      exact hp.array i g h hg
    · cases hf.symm.trans hg
      rw [List.getElem?_append_right (Nat.le_of_eq hp.arrays_length), hp.arrays_length, Nat.sub_self]
      exact ⟨c, rfl, hc⟩

theorem Placed.createField_cases :
    Creates api toDouble nrow f ∧
      (∃ q, createField api toDouble nrow p j f = ⟨[], .ok q⟩ ∧
        Placed api toDouble fields nrow q (j + 1)) ∨
    ¬Creates api toDouble nrow f ∧
      ∃ e, createField api toDouble nrow p j f = ⟨[.freeResult], .raised e⟩ := by
  unfold createField
  cases hc : createContainer api toDouble nrow f with
  | ok c =>
    obtain ⟨q, hq, hplaced⟩ := hp.place hapi hf (createContainer_new hc)
    dsimp only
    rw [hq]
    exact Or.inl ⟨⟨c, hc⟩, q, rfl, hplaced⟩
  | error e =>
    refine Or.inr ⟨?_, e, rfl⟩
    intro ⟨c, hc'⟩
    rw [hc] at hc'
    cases hc'

end Place

/-! ### All columns -/

section Create

variable {api : ResultApi} (hapi : api.Resolves) {toDouble : Bool} {fields : List MysqlField}
  {nrow : Nat} {p : Plhs}

include hapi

theorem Placed.createFields_cases {j : Nat} (hp : Placed api toDouble fields nrow p j)
    {fs : List MysqlField} (hfs : fields.drop j = fs) (hj : j ≤ fields.length) :
    (∀ f ∈ fs, Creates api toDouble nrow f) ∧
      (∃ q, createFields api toDouble nrow p j fs = ⟨[], .ok q⟩ ∧
        Placed api toDouble fields nrow q fields.length) ∨
    ¬(∀ f ∈ fs, Creates api toDouble nrow f) ∧
      ∃ e, createFields api toDouble nrow p j fs = ⟨[.freeResult], .raised e⟩ := by
  induction fs generalizing j p with
  | nil =>
    have hend : j = fields.length := Nat.le_antisymm hj (List.drop_eq_nil_iff.mp hfs)
    exact Or.inl ⟨fun f hf => absurd hf List.not_mem_nil, p, rfl, hend ▸ hp⟩
  | cons f fs ih =>
    obtain ⟨hlt, hf, hrest⟩ := of_drop_eq_cons hfs
    rw [createFields]
    rcases hp.createField_cases hapi hf with ⟨hcreates, q, hq, hplaced⟩ | ⟨hno, e, he⟩
    · rw [hq]
      have hgo : (⟨[], .ok q⟩ >>= fun p => createFields api toDouble nrow p (j + 1) fs)
          = createFields api toDouble nrow q (j + 1) fs := Logged.lift_ok_bind q _
      rw [hgo]
      rcases ih hplaced hrest hlt with ⟨hall, hrun⟩ | ⟨hno, hrun⟩
      · left
        refine ⟨?_, hrun⟩
        intro g hg
        rcases List.mem_cons.mp hg with rfl | hg
        · exact hcreates
        · exact hall g hg
      · exact Or.inr ⟨fun h => hno fun g hg => h g (List.mem_cons_of_mem f hg), hrun⟩
    · rw [he]
      exact Or.inr ⟨fun h => hno (h f List.mem_cons_self), e, rfl⟩

end Create

theorem Placed.ready {api : ResultApi} {toDouble : Bool} {fields : List MysqlField} {nrow : Nat}
    {p : Plhs} (hp : Placed api toDouble fields nrow p fields.length) :
    Ready api toDouble fields nrow p where
  found j f hf := by
    have h := hp.found j f (List.getElem?_eq_some_iff.mp hf).1 hf
    rw [List.take_length] at h
    exact h
  iPr_own j f hf := hp.iPr_own j f (List.getElem?_eq_some_iff.mp hf).1 hf
  pr_own j f hf := hp.pr_own j f (List.getElem?_eq_some_iff.mp hf).1 hf
  array j f hf := by
    obtain ⟨c, hc, hnew⟩ := hp.array j f (List.getElem?_eq_some_iff.mp hf).1 hf
    exact ⟨c, hc, hnew.kind, hnew.length⟩

/-- Nothing has been loaded into new arrays. -/
theorem Placed.entered {api : ResultApi} {toDouble : Bool} {res : ResultSet} {p : Plhs}
    (hp : Placed api toDouble res.fields res.numRows p res.fields.length) :
    Entered api toDouble res p 0 0 where
  loaded i j f _ _ hbefore := by
    rcases hbefore with h | ⟨-, h⟩
    · exact absurd h (Nat.not_lt_zero i)
    · exact absurd h (Nat.not_lt_zero j)
  fresh i j f hi hf _ hbig := by
    obtain ⟨c, hc, hnew⟩ := hp.array j f (List.getElem?_eq_some_iff.mp hf).1 hf
    rw [Plhs.entry, hc]
    exact hnew.zero hbig i hi

/-- **The creation loop** ends with a struct that is ready for loading, or frees the result set and raises
an error. -/
theorem createFields_cases {api : ResultApi} (hapi : api.Resolves) (toDouble : Bool)
    (fields : List MysqlField) (nrow : Nat) :
    (∀ f ∈ fields, Creates api toDouble nrow f) ∧
      (∃ q, createFields api toDouble nrow (.start (fields.map MysqlField.name)) 0 fields
          = ⟨[], .ok q⟩ ∧ Placed api toDouble fields nrow q fields.length) ∨
    ¬(∀ f ∈ fields, Creates api toDouble nrow f) ∧
      ∃ e, createFields api toDouble nrow (.start (fields.map MysqlField.name)) 0 fields
        = ⟨[.freeResult], .raised e⟩ :=
  (placed_start api toDouble fields nrow).createFields_cases hapi rfl (Nat.zero_le _)

end Mym
