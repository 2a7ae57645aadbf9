import Mathlib.Data.List.Forall2
import Mym.SerializeFormat

/-!
# The tables of `serializeStruct`

`serializeStruct` keeps the partial serializations of its children in two tables, `pser` and `plen`,
of `nelts*nfields` entries.  A build loop over elements and fields fills them with a running index, a
copy loop over all entries reads them, and a clean-up loop over the elements frees what `pser` points
to.

`tablesKept_iff` says for which struct arrays these loops stay in the tables, and
`serializeTables_refines` that the loops then do what `serializeStruct` does.
-/

namespace Mym

/-- A struct array in memory. -/
structure StructArray where
  dims : List Nat
  fields : List CStr
  /-- the fields of the first element, those of the second and so on -/
  vals : List (Option MxArray)
  nfields_lt : fields.length < 2 ^ 31
  length_vals : vals.length = dims.prod * fields.length
  length_lt : vals.length < 2 ^ 64

namespace StructArray

variable (a : StructArray)

/-- `mxGetNumberOfElements` -/
def nelts : Nat := a.dims.prod

/-- `mxGetNumberOfFields` -/
def nfields : Nat := a.fields.length

/-- `mxGetFieldByNumber` -/
def fieldByNumber (i j : Nat) : Option MxArray := (a.vals[i * a.nfields + j]?).join

/-- The size of the tables, a `size_t`. -/
def entries : Nat := a.nelts * a.nfields % 2 ^ 64

/-- The field of an element that belongs to entry `k`, element by element. -/
def entry (k : Nat) : Option MxArray := a.fieldByNumber (k / a.nfields) (k % a.nfields)

theorem entries_eq : a.entries = a.nelts * a.nfields :=
  Nat.mod_eq_of_lt (a.length_vals ▸ a.length_lt)

theorem nfields_pos {k : Nat} (h : k < a.nelts * a.nfields) : 0 < a.nfields := by
  apply Nat.pos_of_ne_zero
  intro hzero
  rw [hzero, Nat.mul_zero] at h
  cases h

theorem entry_add {i j : Nat} (hj : j < a.nfields) :
    a.entry (i * a.nfields + j) = a.fieldByNumber i j := by
  have hdiv : (i * a.nfields + j) / a.nfields = i := by
    rw [Nat.mul_comm, Nat.mul_add_div (Nat.zero_lt_of_lt hj), Nat.div_eq_of_lt hj, Nat.add_zero]
  have hmod : (i * a.nfields + j) % a.nfields = j := by
    rw [Nat.mul_comm, Nat.mul_add_mod, Nat.mod_eq_of_lt hj]
  rw [entry, hdiv, hmod]

end StructArray

/-! ### The loops -/

section Loops

variable (a : StructArray) (child : Option MxArray → Except MexError Bytes)

/-- What becomes of a child: its partial serialization, or an error.  A NULL child is a 0-by-0 double. -/
def serialized : Except MexError Bytes → Result Bytes
  | .ok b => .ok b
  | .error e => .raised e

/-- Where the build loop stands.  An entry of `pser` that has not been filled is NULL. -/
structure BuildLoop where
  i : Nat
  j : Nat
  li : Nat
  pser : List (Option Bytes)
  plen : List Nat

def fieldRound (s : BuildLoop) : Result BuildLoop := do
  let b ← serialized (child (a.fieldByNumber s.i s.j))
  let pser ← writeEntry s.pser s.li (some b)
  let plen ← writeEntry s.plen s.li b.length
  -- `li` is an `unsigned`
  .ok ⟨s.i, s.j + 1, (s.li + 1) % 2 ^ 32, pser, plen⟩

def elementRound (s : BuildLoop) : Result BuildLoop := do
  let s ← Outcome.forInt a.nfields (fieldRound a child) ⟨s.i, 0, s.li, s.pser, s.plen⟩
  .ok ⟨s.i + 1, s.j, s.li, s.pser, s.plen⟩

def build : Result BuildLoop :=
  Outcome.forInt a.nelts (elementRound a child)
    ⟨0, 0, 0, List.replicate a.entries none, List.replicate a.entries 0⟩

/-- Where the copy loop stands, and the partial serializations it has copied. -/
structure CopyLoop where
  i : Nat
  parts : List Serial

def copyRound (pser : List (Option Bytes)) (plen : List Nat) (s : CopyLoop) : Result CopyLoop := do
  let plenScalar ← readEntry plen s.i
  let p ← readEntry pser s.i
  match p with
  | none => .outside
  | some block => do
    let bs ← readBytes block 0 plenScalar
    .ok ⟨s.i + 1, s.parts ++ [⟨bs.1, plenScalar⟩]⟩

def copy (s : BuildLoop) : Result CopyLoop :=
  Outcome.forInt (a.nfields * a.nelts % 2 ^ 64) (copyRound s.pser s.plen) ⟨0, []⟩

/-- `mxFree(pser[i])` -/
def freeRound (pser : List (Option Bytes)) (i : Nat) : Result Nat := do
  let _ ← readEntry pser i
  .ok (i + 1)

/-- The clean-up loop begins with 1 and counts elements. -/
def cleanUp (pser : List (Option Bytes)) : Result Nat :=
  Outcome.forIntFrom 1 a.nelts (freeRound pser) 1

def serializeTables (rhead : Bool) : Result Serial := do
  let s ← build a child
  let c ← copy a s
  let p ← putStruct a.dims a.fields c.parts rhead
  let _ ← cleanUp a s.pser
  .ok p

end Loops

/-! ### The build loop -/

/-- The tables when `c` entries have been filled.  From the `2 ^ 32`th on, entries are filled again. -/
structure Built (a : StructArray) (child : Option MxArray → Except MexError Bytes) (c : Nat)
    (s : BuildLoop) : Prop where
  length_pser : s.pser.length = a.nelts * a.nfields
  length_plen : s.plen.length = a.nelts * a.nfields
  li_eq : s.li = c % 2 ^ 32
  returned : ∀ k < c, ∃ b, child (a.entry k) = .ok b
  filled : c ≤ 2 ^ 32 → ∀ k < c, ∀ b, child (a.entry k) = .ok b →
    s.pser[k]? = some (some b) ∧ s.plen[k]? = some b.length

/-- A child that the build loop comes to cannot be serialized. -/
def ChildRaises (a : StructArray) (child : Option MxArray → Except MexError Bytes) : Prop :=
  ∃ k, k < a.nelts * a.nfields ∧ k < 2 ^ 31 * a.nfields ∧ ∃ e, child (a.entry k) = .error e

section Build

variable {a : StructArray} {child : Option MxArray → Except MexError Bytes}

/-- One more entry. -/
theorem Built.fill {c : Nat} {s : BuildLoop} (h : Built a child c s) (hc : c < a.nelts * a.nfields)
    {b : Bytes} (hb : child (a.entry c) = .ok b) (i j : Nat) :
    Built a child (c + 1)
      ⟨i, j, (s.li + 1) % 2 ^ 32, s.pser.set s.li (some b), s.plen.set s.li b.length⟩ where
  length_pser := by rw [List.length_set, h.length_pser]
  length_plen := by rw [List.length_set, h.length_plen]
  li_eq := by
    dsimp only
    rw [h.li_eq, Nat.mod_add_mod]
  returned k hk := by
    rcases Nat.lt_succ_iff_lt_or_eq.mp hk with hlt | rfl
    · exact h.returned k hlt
    · exact ⟨b, hb⟩
  filled hle k hk d hd := by
    have hli : s.li = c := by
      rw [h.li_eq, Nat.mod_eq_of_lt (by omega)]
    dsimp only
    rw [hli]
    rcases Nat.lt_succ_iff_lt_or_eq.mp hk with hlt | rfl
    · rw [List.getElem?_set_ne (by omega), List.getElem?_set_ne (by omega)]
      exact h.filled (by omega) k hlt d hd
    · cases hb.symm.trans hd
      have hpser : k < s.pser.length := h.length_pser ▸ hc
      have hplen : k < s.plen.length := h.length_plen ▸ hc
      exact ⟨List.getElem?_set_self hpser, List.getElem?_set_self hplen⟩

theorem fieldRound_cases {i j : Nat} (hj : j < a.nfields) (hc : i * a.nfields + j < a.nelts * a.nfields)
    {s : BuildLoop} (hi : s.i = i) (hsj : s.j = j) (h : Built a child (i * a.nfields + j) s) :
    (∃ t, fieldRound a child s = .ok t ∧ t.i = i ∧ t.j = j + 1 ∧
      Built a child (i * a.nfields + (j + 1)) t) ∨
    ∃ e, fieldRound a child s = .raised e ∧ child (a.entry (i * a.nfields + j)) = .error e := by
  rw [fieldRound, hi, hsj, ← a.entry_add hj]
  cases hchild : child (a.entry (i * a.nfields + j)) with
  | error e => exact Or.inr ⟨e, rfl, rfl⟩
  | ok b =>
    have hli : s.li ≤ i * a.nfields + j := by
      rw [h.li_eq]
      exact Nat.mod_le _ _
    have hpser : s.li < s.pser.length := by
      rw [h.length_pser]
      omega
    have hplen : s.li < s.plen.length := by
      rw [h.length_plen]
      omega
    rw [serialized, Outcome.ok_bind, writeEntry_of_lt hpser, Outcome.ok_bind, writeEntry_of_lt hplen,
      Outcome.ok_bind]
    exact Or.inl ⟨_, rfl, rfl, rfl, h.fill hc hchild i (j + 1)⟩

/-- All fields of an element. -/
theorem elementRound_cases {i : Nat} (hi : i < a.nelts) (hint : i < 2 ^ 31) {s : BuildLoop}
    (hsi : s.i = i) (h : Built a child (i * a.nfields) s) :
    (∃ t, elementRound a child s = .ok t ∧ t.i = i + 1 ∧ Built a child ((i + 1) * a.nfields) t) ∨
    ∃ e, elementRound a child s = .raised e ∧ ChildRaises a child := by
  have hrow : (i + 1) * a.nfields ≤ a.nelts * a.nfields := Nat.mul_le_mul_right _ hi
  have hrow' : (i + 1) * a.nfields ≤ 2 ^ 31 * a.nfields := Nat.mul_le_mul_right _ hint
  rw [Nat.succ_mul] at hrow hrow'
  have hstep : ∀ j < a.nfields, ∀ t : BuildLoop,
      t.i = i ∧ t.j = j ∧ Built a child (i * a.nfields + j) t →
      (∃ u, fieldRound a child t = .ok u ∧
        u.i = i ∧ u.j = j + 1 ∧ Built a child (i * a.nfields + (j + 1)) u) ∨
      ∃ e, fieldRound a child t = .raised e ∧ ChildRaises a child := by
    rintro j hj t ⟨hti, htj, hbuilt⟩
    have hc : i * a.nfields + j < a.nelts * a.nfields := by
      omega
    rcases fieldRound_cases hj hc hti htj hbuilt with hok | ⟨e, he, hchild⟩
    · exact Or.inl hok
    · exact Or.inr ⟨e, he, i * a.nfields + j, hc, by omega, e, hchild⟩
  let row : BuildLoop := ⟨s.i, 0, s.li, s.pser, s.plen⟩
  have hstart : Built a child (i * a.nfields + 0) row :=
    ⟨h.length_pser, h.length_plen, h.li_eq, h.returned, h.filled⟩
  rw [elementRound, Outcome.forInt_of_lt (n := a.nfields) a.nfields_lt]
  rcases Outcome.iter_cases (s := row) hstep ⟨hsi, rfl, hstart⟩
    with ⟨t, ht, hti, -, hbuilt⟩ | ⟨e, he, hraise⟩
  · rw [ht, Outcome.ok_bind, Nat.succ_mul]
    exact Or.inl ⟨_, rfl, congrArg (· + 1) hti, hbuilt.length_pser, hbuilt.length_plen, hbuilt.li_eq,
      hbuilt.returned, hbuilt.filled⟩
  · rw [he]
    exact Or.inr ⟨e, rfl, hraise⟩

theorem not_childRaises {c : Nat} {s : BuildLoop} (h : Built a child c s)
    (hc : ∀ k < a.nelts * a.nfields, k < 2 ^ 31 * a.nfields → k < c) : ¬ChildRaises a child := by
  intro hw
  obtain ⟨k, hk, hlt, e, he⟩ := hw
  obtain ⟨b, hb⟩ := h.returned k (hc k hk hlt)
  cases he.symm.trans hb

variable (child)

/-- The elements up to the `n`th. -/
theorem elements_cases {n : Nat} (hn : n ≤ a.nelts) (hint : n ≤ 2 ^ 31) :
    (∃ t, Outcome.iter (elementRound a child) n
        ⟨0, 0, 0, List.replicate a.entries none, List.replicate a.entries 0⟩ = .ok t ∧
      Built a child (n * a.nfields) t) ∨
    ∃ e, Outcome.iter (elementRound a child) n
        ⟨0, 0, 0, List.replicate a.entries none, List.replicate a.entries 0⟩ = .raised e ∧
      ChildRaises a child := by
  have hstep : ∀ i < n, ∀ s : BuildLoop, s.i = i ∧ Built a child (i * a.nfields) s →
      (∃ t, elementRound a child s = .ok t ∧ t.i = i + 1 ∧
        Built a child ((i + 1) * a.nfields) t) ∨
      ∃ e, elementRound a child s = .raised e ∧ ChildRaises a child := by
    rintro i hi s ⟨hsi, hbuilt⟩
    exact elementRound_cases (by omega) (by omega) hsi hbuilt
  have hstart : Built a child (0 * a.nfields)
      ⟨0, 0, 0, List.replicate a.entries none, List.replicate a.entries 0⟩ := by
    rw [Nat.zero_mul]
    refine ⟨?_, ?_, rfl, ?_, ?_⟩
    · rw [List.length_replicate, a.entries_eq]
    · rw [List.length_replicate, a.entries_eq]
    · exact fun k hk => absurd hk (Nat.not_lt_zero k)
    · exact fun _ k hk => absurd hk (Nat.not_lt_zero k)
  rcases Outcome.iter_cases hstep ⟨rfl, hstart⟩ with ⟨t, ht, -, hbuilt⟩ | hraise
  · exact Or.inl ⟨t, ht, hbuilt⟩
  · exact Or.inr hraise

theorem build_of_lt (hn : a.nelts < 2 ^ 31) :
    (∃ s, build a child = .ok s ∧ Built a child (a.nelts * a.nfields) s) ∨
    ∃ e, build a child = .raised e ∧ ChildRaises a child := by
  rw [build, Outcome.forInt_of_lt hn]
  exact elements_cases child (Nat.le_refl _) (Nat.le_of_lt hn)

/-- The counter of the elements overflows, if no error comes first. -/
theorem build_of_ge (hn : 2 ^ 31 ≤ a.nelts) :
    build a child = .undefined ∧ ¬ChildRaises a child ∨
    ∃ e, build a child = .raised e ∧ ChildRaises a child := by
  rw [build, Outcome.forInt_of_ge hn]
  rcases elements_cases child hn (Nat.le_refl _) with ⟨t, ht, hbuilt⟩ | ⟨e, he, hraise⟩
  · rw [ht]
    exact Or.inl ⟨rfl, not_childRaises hbuilt fun k _ hlt => hlt⟩
  · rw [he]
    exact Or.inr ⟨e, rfl, hraise⟩

variable (a) in
/-- The build loop ends with full tables, with the error of a child, or in an overflow. -/
theorem build_cases :
    (∃ s, build a child = .ok s ∧ a.nelts < 2 ^ 31 ∧ ¬ChildRaises a child ∧
      Built a child (a.nelts * a.nfields) s) ∨
    (∃ e, build a child = .raised e ∧ ChildRaises a child) ∨
    build a child = .undefined ∧ 2 ^ 31 ≤ a.nelts ∧ ¬ChildRaises a child := by
  by_cases hn : a.nelts < 2 ^ 31
  · rcases build_of_lt child hn with ⟨s, hs, hbuilt⟩ | hraise
    · exact Or.inl ⟨s, hs, hn, not_childRaises hbuilt fun k hk _ => hk, hbuilt⟩
    · exact Or.inr (Or.inl hraise)
  · rcases build_of_ge child (Nat.not_lt.mp hn) with ⟨hundef, hno⟩ | hraise
    · exact Or.inr (Or.inr ⟨hundef, Nat.not_lt.mp hn, hno⟩)
    · exact Or.inr (Or.inl hraise)

end Build

/-! ### The copy loop and the clean-up loop -/

section Copy

variable {a : StructArray} {child : Option MxArray → Except MexError Bytes} {s : BuildLoop}

/-- Entry `i` of full tables is copied. -/
theorem copyRound_full {bs : List Bytes} {i : Nat} (hi : i < bs.length) (c : CopyLoop) (hc : c.i = i) :
    copyRound (bs.map some) (bs.map List.length) c
      = .ok ⟨i + 1, c.parts ++ [.of bs[i]]⟩ := by
  have hpser : (bs.map some)[i]? = some (some bs[i]) := by
    rw [List.getElem?_map, List.getElem?_eq_getElem hi]
    rfl
  have hplen : (bs.map List.length)[i]? = some bs[i].length := by
    rw [List.getElem?_map, List.getElem?_eq_getElem hi]
    rfl
  rw [copyRound, hc, readEntry_eq_ok.mpr hplen, Outcome.ok_bind, readEntry_eq_ok.mpr hpser,
    Outcome.ok_bind]
  dsimp only
  rw [readBytes_of_at (at_self bs[i]) rfl, Outcome.ok_bind]
  rfl

theorem iter_copyRound {bs : List Bytes} {n : Nat} (hn : n ≤ bs.length) :
    Outcome.iter (copyRound (bs.map some) (bs.map List.length)) n ⟨0, []⟩
      = .ok ⟨n, (bs.take n).map .of⟩ := by
  induction n with
  | zero => rfl
  | succ n ih =>
    rw [Outcome.iter_succ_last, ih (Nat.le_of_succ_le hn), Outcome.ok_bind, copyRound_full hn _ rfl,
      ← List.take_append_getElem hn, List.map_append]
    rfl

theorem copyRound_ne_raised (pser : List (Option Bytes)) (plen : List Nat) (c : CopyLoop) (e : MexError) :
    copyRound pser plen c ≠ .raised e := by
  rw [copyRound]
  refine Outcome.bind_ne_raised (readEntry_ne_raised _ _ e) fun n _ =>
    Outcome.bind_ne_raised (readEntry_ne_raised _ _ e) fun o _ => ?_
  cases o with
  | none => exact fun h => by cases h
  | some block =>
    exact Outcome.bind_ne_raised (readBytes_ne_raised _ _ _ e) fun _ _ h => by cases h

theorem copy_ne_raised (e : MexError) : copy a s ≠ .raised e := by
  have hrounds : ∀ n c, Outcome.iter (copyRound s.pser s.plen) n c ≠ .raised e := by
    intro n
    induction n with
    | zero => exact fun c h => by cases h
    | succ n ih =>
      exact fun c => Outcome.bind_ne_raised (copyRound_ne_raised _ _ c e) fun c' _ => ih c'
  unfold copy Outcome.forInt
  split
  · exact hrounds _ _
  · exact Outcome.bind_ne_raised (hrounds _ _) fun _ _ h => by cases h

/-- The counter of the copy loop overflows. -/
theorem copy_ne_ok (h : 2 ^ 31 ≤ a.nelts * a.nfields) (c : CopyLoop) : copy a s ≠ .ok c := by
  intro hok
  have hsize : a.nfields * a.nelts % 2 ^ 64 = a.nelts * a.nfields := by
    rw [Nat.mul_comm]
    exact a.entries_eq
  rw [copy, hsize, Outcome.forInt_of_ge h] at hok
  obtain ⟨_, -, hundef⟩ := Outcome.bind_eq_ok hok
  cases hundef

/-- What the tables hold when every entry has been filled. -/
structure TablesHold (a : StructArray) (child : Option MxArray → Except MexError Bytes) (s : BuildLoop)
    (bs : List Bytes) : Prop where
  length_eq : bs.length = a.nelts * a.nfields
  entry_eq : ∀ k b, bs[k]? = some b → child (a.entry k) = .ok b
  pser_eq : s.pser = bs.map some
  plen_eq : s.plen = bs.map List.length

/-- Full tables hold the partial serializations in their order. -/
theorem Built.holds (h : Built a child (a.nelts * a.nfields) s) (hle : a.nelts * a.nfields ≤ 2 ^ 32) :
    ∃ bs, TablesHold a child s bs := by
  have hreturned : ∀ k, ∃ b, k < a.nelts * a.nfields → child (a.entry k) = .ok b := by
    intro k
    by_cases hk : k < a.nelts * a.nfields
    · obtain ⟨b, hb⟩ := h.returned k hk
      exact ⟨b, fun _ => hb⟩
    · exact ⟨[], fun hlt => absurd hlt hk⟩
  choose f hf using hreturned
  have hlen : ((List.range (a.nelts * a.nfields)).map f).length = a.nelts * a.nfields := by
    rw [List.length_map, List.length_range]
  have hget : ∀ k < a.nelts * a.nfields,
      ((List.range (a.nelts * a.nfields)).map f)[k]? = some (f k) := by
    intro k hk
    rw [List.getElem?_map, List.getElem?_range hk]
    rfl
  refine ⟨(List.range (a.nelts * a.nfields)).map f, hlen, ?_, ?_, ?_⟩
  · intro k b hb
    have hk : k < a.nelts * a.nfields := hlen ▸ (List.getElem?_eq_some_iff.mp hb).1
    rw [hget k hk] at hb
    exact Option.some.inj hb ▸ hf k hk
  · apply List.ext_getElem?
    intro k
    by_cases hk : k < a.nelts * a.nfields
    · rw [(h.filled hle k hk _ (hf k hk)).1, List.getElem?_map, hget k hk]
      rfl
    · rw [List.getElem?_eq_none (by rw [h.length_pser]; omega),
        List.getElem?_eq_none (by rw [List.length_map, hlen]; omega)]
  · apply List.ext_getElem?
    intro k
    by_cases hk : k < a.nelts * a.nfields
    · rw [(h.filled hle k hk _ (hf k hk)).2, List.getElem?_map, hget k hk]
      rfl
    · rw [List.getElem?_eq_none (by rw [h.length_plen]; omega),
        List.getElem?_eq_none (by rw [List.length_map, hlen]; omega)]

theorem copy_holds {bs : List Bytes} (h : TablesHold a child s bs) (hlt : a.nelts * a.nfields < 2 ^ 31) :
    copy a s = .ok ⟨a.nelts * a.nfields, bs.map .of⟩ := by
  have hsize : a.nfields * a.nelts % 2 ^ 64 = a.nelts * a.nfields := by
    rw [Nat.mul_comm]
    exact a.entries_eq
  rw [copy, hsize, Outcome.forInt_of_lt hlt, h.pser_eq, h.plen_eq,
    iter_copyRound (Nat.le_of_eq h.length_eq.symm), ← h.length_eq, List.take_length]

theorem iter_freeRound {pser : List (Option Bytes)} {n : Nat} (hn : n = 0 ∨ n < pser.length) :
    Outcome.iter (freeRound pser) n 1 = .ok (1 + n) := by
  induction n with
  | zero => rfl
  | succ n ih =>
    have hlt : 1 + n < pser.length := by
      omega
    rw [Outcome.iter_succ_last, ih (Or.inr (by omega)), Outcome.ok_bind, freeRound,
      readEntry_of_lt hlt]
    rfl

/-- **The clean-up loop** counts elements in a table of fields. -/
theorem cleanUp_cases (hlen : s.pser.length = a.nelts * a.nfields) (hlt : a.nelts < 2 ^ 31) :
    (∃ n, cleanUp a s.pser = .ok n) ∧ (a.nfields = 0 → a.nelts ≤ 1) ∨
    cleanUp a s.pser = .outside ∧ a.nfields = 0 ∧ 1 < a.nelts := by
  rw [cleanUp, Outcome.forIntFrom_of_lt 1 hlt]
  by_cases hbad : a.nfields = 0 ∧ 1 < a.nelts
  · right
    have hempty : s.pser.length = 0 := by
      rw [hlen, hbad.1, Nat.mul_zero]
    obtain ⟨n, hn⟩ : ∃ n, a.nelts - 1 = n + 1 := ⟨a.nelts - 2, by omega⟩
    refine ⟨?_, hbad⟩
    rw [hn, Outcome.iter_succ, freeRound, readEntry_of_ge (by omega)]
    rfl
  · left
    refine ⟨⟨_, iter_freeRound ?_⟩, by omega⟩
    rw [hlen]
    rcases Nat.eq_zero_or_pos a.nfields with hzero | hpos
    · omega
    · have hle : a.nelts * 1 ≤ a.nelts * a.nfields := Nat.mul_le_mul_left _ hpos
      omega

end Copy

/-! ### The whole -/

section Whole

variable (a : StructArray) (child : Option MxArray → Except MexError Bytes) (rhead : Bool)

/-- The loops stay in the tables, and the build loop fills what the copy loop reads. -/
structure TablesKept : Prop where
  ends : (∃ p, serializeTables a child rhead = .ok p) ∨ ∃ e, serializeTables a child rhead = .raised e
  filled : ∀ s, build a child = .ok s → ∃ bs, TablesHold a child s bs ∧
    copy a s = .ok ⟨a.nelts * a.nfields, bs.map .of⟩

variable {a child}

theorem length_partBytes_of (bs : List Bytes) :
    (partBytes (bs.map .of)).length
      = ((bs.map Serial.of).map fun p => p.rnBytes + sizeofUint64).sum := by
  rw [partBytes, List.length_flatten, List.map_map, List.map_map, List.map_map]
  refine congrArg List.sum (List.map_congr_left fun b _ => ?_)
  show (leBytes sizeofUint64 b.length ++ b).length = b.length + sizeofUint64
  rw [List.length_append, length_leBytes, Nat.add_comm]

/-- The size that has been added up is the size that is written. -/
theorem putStruct_of (dims : List Nat) (fields : List CStr) (bs : List Bytes)
    (h : fields.length * dims.prod < 2 ^ 31) :
    ∃ p, putStruct dims fields (bs.map .of) rhead = .ok p := by
  have hnames : ((fields.map fun f => f.1 ++ [0]).flatten).length
      = (fields.map fun f => f.1.length + 1).sum := length_nameBytes fields
  have hparts := length_partBytes_of bs
  have hdims := Nat.mul_comm sizeofUint64 dims.length
  unfold putStruct
  dsimp only
  rw [if_neg (by omega), if_neg]
  · exact ⟨_, rfl⟩
  · rw [not_not]
    simp only [List.length_append, length_headBytes, List.length_singleton, length_leBytes,
      length_wordBytes, hnames, hparts]
    omega

/-- What comes behind the build loop. -/
theorem serializeTables_built {s : BuildLoop} (hs : build a child = .ok s) (hn : a.nelts < 2 ^ 31)
    (hlen : s.pser.length = a.nelts * a.nfields) {bs : List Bytes}
    (hcopy : copy a s = .ok ⟨a.nelts * a.nfields, bs.map .of⟩)
    (hlt : a.nelts * a.nfields < 2 ^ 31) :
    (∃ p, putStruct a.dims a.fields (bs.map .of) rhead = .ok p ∧
      serializeTables a child rhead = .ok p) ∧ (a.nfields = 0 → a.nelts ≤ 1) ∨
    serializeTables a child rhead = .outside ∧ a.nfields = 0 ∧ 1 < a.nelts := by
  obtain ⟨p, hp⟩ := putStruct_of rhead a.dims a.fields bs (Nat.mul_comm _ _ ▸ hlt)
  rw [serializeTables, hs, Outcome.ok_bind, hcopy, Outcome.ok_bind, hp, Outcome.ok_bind]
  rcases cleanUp_cases hlen hn with ⟨⟨n, hfree⟩, hone⟩ | ⟨hout, hbad⟩
  · rw [hfree]
    exact Or.inl ⟨⟨p, rfl, rfl⟩, hone⟩
  · rw [hout]
    exact Or.inr ⟨rfl, hbad⟩

/-- **When the tables are kept.**  A struct array without fields has at most one element, and the fields of
all elements can be counted with an `int`, unless a child comes first that cannot be serialized. -/
theorem tablesKept_iff :
    TablesKept a child rhead ↔
      (a.nfields = 0 → a.nelts ≤ 1) ∧
        (a.nelts * a.nfields < 2 ^ 31 ∨ ChildRaises a child) := by
  rcases build_cases a child
    with ⟨s, hs, hn, hno, hbuilt⟩ | ⟨e, he, hraise⟩ | ⟨hundef, hn, hno⟩
  · rw [or_iff_left hno]
    by_cases hlt : a.nelts * a.nfields < 2 ^ 31
    · obtain ⟨bs, hbs⟩ := hbuilt.holds (by omega)
      have hcopy := copy_holds hbs hlt
      rcases serializeTables_built rhead hs hn hbuilt.length_pser hcopy hlt
        with ⟨⟨p, -, hp⟩, hone⟩ | ⟨hout, hzero, hmany⟩
      · refine iff_of_true ⟨Or.inl ⟨p, hp⟩, ?_⟩ ⟨hone, hlt⟩
        intro s' hs'
        cases hs.symm.trans hs'
        exact ⟨bs, hbs, hcopy⟩
      · refine iff_of_false ?_ fun h => absurd (h.1 hzero) (Nat.not_le.mpr hmany)
        intro hw
        obtain ⟨⟨p, hp⟩ | ⟨e, he⟩, -⟩ := hw
        · cases hout.symm.trans hp
        · cases hout.symm.trans he
    · refine iff_of_false ?_ fun h => hlt h.2
      have hge := Nat.not_lt.mp hlt
      intro hw
      obtain ⟨⟨p, hp⟩ | ⟨e, he⟩, -⟩ := hw
      · rw [serializeTables, hs, Outcome.ok_bind] at hp
        obtain ⟨c, hc, -⟩ := Outcome.bind_eq_ok hp
        exact copy_ne_ok hge c hc
      · rw [serializeTables, hs, Outcome.ok_bind] at he
        exact Outcome.bind_ne_raised (copy_ne_raised e) (fun c hc => absurd hc (copy_ne_ok hge c)) he
  · obtain ⟨k, hk, -⟩ := id hraise
    have hpos := a.nfields_pos hk
    refine iff_of_true ⟨Or.inr ⟨e, ?_⟩, ?_⟩ ⟨fun hzero => absurd hzero (by omega), Or.inr hraise⟩
    · rw [serializeTables, he]
      rfl
    · intro s hs
      cases he.symm.trans hs
  · refine iff_of_false ?_ ?_
    · intro hw
      obtain ⟨⟨p, hp⟩ | ⟨e, he⟩, -⟩ := hw
      · rw [serializeTables, hundef] at hp
        cases hp
      · rw [serializeTables, hundef] at he
        cases he
    · intro hw
      obtain ⟨hone, hlt | hraise⟩ := hw
      · rcases Nat.eq_zero_or_pos a.nfields with hzero | hpos
        · have := hone hzero
          omega
        · have hle : a.nelts * 1 ≤ a.nelts * a.nfields := Nat.mul_le_mul_left _ hpos
          omega
      · exact hno hraise

/-- The partial serialization of a child, which may be NULL. -/
def fieldSerial : Option MxArray → Result Serial
  | none => serializeFull MxArray.emptyDouble false
  | some v => serializeChild v

theorem serializeParts_of_forall₂ {vals : List (Option MxArray)} {bs : List Bytes}
    (h : List.Forall₂ (fun v b => fieldSerial v = .ok (.of b)) vals bs) :
    serializeParts vals = .ok (bs.map .of) := by
  induction h with
  | nil => rfl
  | @cons v b vals bs hv hrest ih =>
    cases v with
    | none =>
      have hv : serializeFull MxArray.emptyDouble false = .ok (.of b) := hv
      rw [serializeParts, hv, ih]
      rfl
    | some v =>
      have hv : serializeChild v = .ok (.of b) := hv
      rw [serializeParts, hv, ih]
      rfl

theorem entry_of_lt (a : StructArray) {k : Nat} (hk : k < a.vals.length) :
    a.entry k = a.vals[k] := by
  have hpos : 0 < a.nfields := a.nfields_pos (k := k) (a.length_vals ▸ hk)
  have hplace : k / a.nfields * a.nfields + k % a.nfields = k := Nat.div_add_mod' k a.nfields
  rw [StructArray.entry, StructArray.fieldByNumber, hplace, List.getElem?_eq_getElem hk]
  rfl

/-- **The loops do what `serializeStruct` does**, as long as they stay in the tables and every child is
serialized. -/
theorem serializeTables_refines (hone : a.nfields = 0 → a.nelts ≤ 1) (hn : a.nelts < 2 ^ 31)
    (hlt : a.nelts * a.nfields < 2 ^ 31)
    (hchild : ∀ v ∈ a.vals, ∃ b, child v = .ok b ∧ fieldSerial v = .ok (.of b)) :
    serializeTables a child rhead = serializeStruct a.dims a.fields a.vals rhead := by
  have hlen : a.vals.length = a.nelts * a.nfields := a.length_vals
  have hno : ¬ChildRaises a child := by
    intro hw
    obtain ⟨k, hk, -, e, he⟩ := hw
    rw [← hlen] at hk
    rw [entry_of_lt a hk] at he
    obtain ⟨b, hb, -⟩ := hchild _ (List.getElem_mem hk)
    cases hb.symm.trans he
  obtain ⟨s, hs, hbuilt⟩ := (build_of_lt child hn).resolve_right fun h => hno (h.elim fun _ h => h.2)
  obtain ⟨bs, hbs⟩ := hbuilt.holds (by omega)
  have hparts : serializeParts a.vals = .ok (bs.map .of) := by
    apply serializeParts_of_forall₂
    refine List.forall₂_iff_get.mpr ⟨by rw [hlen, hbs.length_eq], ?_⟩
    intro k hk hk'
    obtain ⟨b, hb, hserial⟩ := hchild _ (List.get_mem a.vals ⟨k, hk⟩)
    have hentry := hbs.entry_eq k _ (List.getElem?_eq_getElem hk')
    rw [entry_of_lt a hk] at hentry
    cases hb.symm.trans hentry
    exact hserial
  have hint : ¬2 ^ 31 ≤ a.dims.prod := Nat.not_le.mpr hn
  rw [serializeStruct, hparts, Outcome.ok_bind, if_neg hint]
  rcases serializeTables_built rhead hs hn hbuilt.length_pser (copy_holds hbs hlt) hlt
    with ⟨⟨p, hp, hrun⟩, -⟩ | ⟨-, hzero, hmany⟩
  · rw [hp, hrun]
  · exact absurd (hone hzero) (Nat.not_le.mpr hmany)

end Whole

/-- `repmat(struct(), 1, 2)` -/
def twoBare : StructArray where
  dims := [1, 2]
  fields := []
  vals := []
  nfields_lt := by decide
  length_vals := rfl
  length_lt := by decide

/-- **Two elements and no fields**: the tables have no entries, and the clean-up loop frees entry 1. -/
theorem twoBare_outside :
    twoBare.entries = 0 ∧ serializeTables twoBare (fun _ => .ok []) true = .outside ∧
      ¬TablesKept twoBare (fun _ => .ok []) true := by
  refine ⟨rfl, rfl, ?_⟩
  intro h
  obtain ⟨⟨p, hp⟩ | ⟨e, he⟩, -⟩ := h
  · cases hp
  · cases he

end Mym
