import Mym.Contents
import Mym.Fetching

/-!
# The flag `bigint_to_double`

One result set fetched twice, with the flag and without it.  Without it the fetch ends as it does
with it, and only the BIGINT columns differ, unless a BIGINT is NULL: then there is an error
(`fetchOutput_toDouble`).
-/

namespace Mym

section

variable (api : ResultApi)

/-- What a column holds for `s` without the flag, and with it. -/
inductive WithFlag (f : MysqlField) (s : Option FieldValue) : Value → Value → Prop
  | other (hf : f.type ≠ .longlong) (v : Value) : WithFlag f s v v
  | bigint (hf : f.type = .longlong) (v : FieldValue) (hv : s = some v) (text : CStr)
      (htext : readCStr (ε := MexError) v.mem 0 = .ok text) :
      WithFlag f s (.word ((api.scanLong (f.hasFlag unsignedFlag) text).getD 0))
        (.double ((api.scanDouble text).getD (.nan false)))

/-- `sscanf` reads the numeral of a BIGINT, with `%lf` where a double holds the number. -/
structure ResultApi.ScansBigint (api : ResultApi) : Prop where
  long : ∀ (isUnsigned : Bool) (n : Int) (s : CStr), s.1 = numeral n →
    (if isUnsigned then 0 ≤ n ∧ n < 2 ^ 64 else -2 ^ 63 ≤ n ∧ n < 2 ^ 63) →
    api.scanLong isUnsigned s = some (BitVec.ofInt 64 n)
  double : ∀ (n : Int) (s : CStr), s.1 = numeral n → n.natAbs ≤ 2 ^ 53 →
    api.scanDouble s = some (Ieee.ofInt n)

/-- A BIGINT of the row is NULL. -/
def NullBigint (fs : List MysqlField) (row : Row) : Prop :=
  ∃ (j : Nat) (f : MysqlField), fs[j]? = some f ∧ f.type = .longlong ∧ row[j]? = some none

/-- The values of a row without the flag, and with it. -/
def RowWithFlag (fs : List MysqlField) (row : Row) (vs vs' : List Value) : Prop :=
  ∀ (j : Nat) (f : MysqlField) (s : Option FieldValue) (v v' : Value), fs[j]? = some f →
    row[j]? = some s → vs[j]? = some v → vs'[j]? = some v' → WithFlag api f s v v'

end

section

variable {api : ResultApi} {f : MysqlField} {s : Option FieldValue}

/-! ### One value -/

theorem convert_other (hf : f.type ≠ .longlong) (toDouble : Bool) :
    convert api toDouble f s = convert api false f s := by
  have hbig : ∀ b, isBigint b f = false := fun b => by
    rw [isBigint, beq_false_of_ne hf, Bool.false_and]
  simp only [convert, hbig]

theorem convert_bigint_false (hf : f.type = .longlong) (v : FieldValue) :
    convert api false f (some v) = readCStr v.mem 0 >>= fun text =>
      .ok (.word ((api.scanLong (f.hasFlag unsignedFlag) text).getD 0)) := by
  have hbig : isBigint false f = true := by rw [isBigint, hf]; rfl
  have hnum : isNum f.type = true := by rw [hf]; rfl
  rw [convert, if_pos hbig, field2int, if_pos hnum, Outcome.bind_assoc]
  rfl

theorem convert_bigint_true (hf : f.type = .longlong) (v : FieldValue) :
    convert api true f (some v) = readCStr v.mem 0 >>= fun text =>
      .ok (.double ((api.scanDouble text).getD (.nan false))) := by
  have hbig : isBigint true f = false := by rw [isBigint, hf]; rfl
  have hconv : canConvert f.type = true := by rw [hf]; rfl
  have hnum : isNum f.type = true := by rw [hf]; rfl
  rw [convert, hbig, if_neg Bool.false_ne_true, if_pos hconv, field2num, if_pos hnum,
    Outcome.bind_assoc]
  rfl

theorem convert_flag (f : MysqlField) (s : Option FieldValue) :
    Outcome.AlikeUnless (f.type = .longlong ∧ s = none) .nullBigint
      (fun v' v => WithFlag api f s v v') (convert api true f s) (convert api false f s) := by
  by_cases hf : f.type = .longlong
  · cases s with
    | none =>
      have hbig : isBigint false f = true := by rw [isBigint, hf]; rfl
      exact Or.inr ⟨⟨hf, rfl⟩, by rw [convert, if_pos hbig, field2int, Outcome.raised_bind]⟩
    | some v =>
      have hsome : ¬(f.type = .longlong ∧ some v = none) := fun h => by cases h.2
      rw [convert_bigint_true hf, convert_bigint_false hf]
      refine Outcome.Alike.unless ((Outcome.alike_refl _).bind ?_) hsome _
      rintro text _ htext - rfl
      exact Outcome.alike_ok (.bigint hf v rfl text htext)
  · rw [convert_other hf true]
    refine Outcome.Alike.unless ?_ (fun h => hf h.1) _
    rcases Outcome.alike_refl (convert api false f s) with ⟨v, _, hv, hv', rfl⟩ | hstop
    · exact Or.inl ⟨v, v, hv, hv', .other hf v⟩
    · exact Or.inr hstop

/-! ### One row -/

theorem nullBigint_cons {fs : List MysqlField} {row : Row} :
    NullBigint (f :: fs) (s :: row) ↔ f.type = .longlong ∧ s = none ∨ NullBigint fs row := by
  constructor
  · rintro ⟨j, g, hg, hbig, hnone⟩
    cases j with
    | zero =>
      cases hg
      exact Or.inl ⟨hbig, Option.some.inj hnone⟩
    | succ j => exact Or.inr ⟨j, g, hg, hbig, hnone⟩
  · rintro (⟨hbig, rfl⟩ | ⟨j, g, hg, hbig, hnone⟩)
    · exact ⟨0, f, rfl, hbig, rfl⟩
    · exact ⟨j + 1, g, hg, hbig, hnone⟩

theorem RowWithFlag.cons {fs : List MysqlField} {row : Row} {v v' : Value} {vs vs' : List Value}
    (hv : WithFlag api f s v v') (h : RowWithFlag api fs row vs vs') :
    RowWithFlag api (f :: fs) (s :: row) (v :: vs) (v' :: vs') := by
  intro j g x w w' hg hx hw hw'
  cases j with
  | zero =>
    cases hg
    cases hx
    cases hw
    cases hw'
    exact hv
  | succ j => exact h j g x w w' hg hx hw hw'

theorem rowValues_flag (fs : List MysqlField) (row : Row) :
    Outcome.AlikeUnless (NullBigint fs row) .nullBigint
      (fun vs' vs => RowWithFlag api fs row vs vs') (rowValues api true fs row)
      (rowValues api false fs row) := by
  induction fs generalizing row with
  | nil =>
    refine Outcome.Alike.unless (Outcome.alike_ok ?_) ?_ _
    · intro j g x w w' hg
      cases hg
    · rintro ⟨j, g, hg, -⟩
      cases hg
  | cons f fs ih =>
    cases row with
    | nil => exact Or.inl (Or.inr ⟨.outside, rfl, rfl⟩)
    | cons s row =>
      rw [nullBigint_cons]
      refine (convert_flag f s).bind fun v' v hv => ?_
      rw [← or_false (NullBigint fs row)]
      refine (ih row).bind fun vs' vs hvs => ?_
      refine Outcome.Alike.unless (Outcome.alike_ok ?_) id _
      exact hvs.cons hv

/-! ### The rows -/

variable {res : ResultSet}

/-- A BIGINT is NULL in one of `n` rows from row `i` on. -/
def NullBigintIn (res : ResultSet) (i n : Nat) : Prop :=
  ∃ k row, k < n ∧ res.fetch (i + k) = some row ∧ NullBigint res.fields row

/-- The rows without the flag, and with it. -/
def RowsWithFlag (api : ResultApi) (res : ResultSet) (i : Nat) (t t' : List (List Value)) : Prop :=
  ∀ (k : Nat) (row : Row) (vs vs' : List Value), res.fetch (i + k) = some row →
    t[k]? = some vs → t'[k]? = some vs' → RowWithFlag api res.fields row vs vs'

theorem nullBigintIn_succ {i n : Nat} {row : Row} (hrow : res.fetch i = some row) :
    NullBigintIn res i (n + 1) ↔ NullBigint res.fields row ∨ NullBigintIn res (i + 1) n := by
  constructor
  · rintro ⟨k, row', hk, hrow', hnull⟩
    cases k with
    | zero =>
      cases hrow.symm.trans hrow'
      exact Or.inl hnull
    | succ k =>
      refine Or.inr ⟨k, row', Nat.lt_of_succ_lt_succ hk, ?_, hnull⟩
      rw [Nat.add_right_comm, Nat.add_assoc]
      exact hrow'
  · rintro (hnull | ⟨k, row', hk, hrow', hnull⟩)
    · exact ⟨0, row, Nat.succ_pos n, hrow, hnull⟩
    · refine ⟨k + 1, row', Nat.succ_lt_succ hk, ?_, hnull⟩
      rw [Nat.add_right_comm, Nat.add_assoc] at hrow'
      exact hrow'

theorem rowsFrom_flag (i n : Nat) :
    Outcome.AlikeUnless (NullBigintIn res i n) .nullBigint
      (fun t' t => RowsWithFlag api res i t t') (rowsFrom api true res i n)
      (rowsFrom api false res i n) := by
  induction n generalizing i with
  | zero =>
    refine Outcome.Alike.unless (Outcome.alike_ok ?_) ?_ _
    · intro k row vs vs' _ hvs
      cases hvs
    · rintro ⟨k, row, hk, -⟩
      exact absurd hk (Nat.not_lt_zero k)
  | succ n ih =>
    cases hrow : res.fetch i with
    | none =>
      have hfetch : fetchRow res i = .raised .noRow := by rw [fetchRow, hrow]
      rw [rowsFrom, rowsFrom, hfetch]
      exact Or.inl (Or.inr ⟨.raised .noRow, rfl, rfl⟩)
    | some row =>
      have hfetch : fetchRow res i = .ok row := by rw [fetchRow, hrow]
      rw [rowsFrom, rowsFrom, hfetch, Outcome.ok_bind, Outcome.ok_bind, nullBigintIn_succ hrow]
      refine (rowValues_flag res.fields row).bind fun vs' vs hvs => ?_
      rw [← or_false (NullBigintIn res (i + 1) n)]
      refine (ih (i + 1)).bind fun t' t ht => Outcome.Alike.unless (Outcome.alike_ok ?_) id _
      intro k row' ws ws' hrow' hws hws'
      cases k with
      | zero =>
        cases hrow.symm.trans hrow'
        cases hws
        cases hws'
        exact hvs
      | succ k =>
        rw [← Nat.add_assoc, Nat.add_right_comm] at hrow'
        exact ht k row' ws ws' hrow' hws hws'

/-! ### The command -/

/-- A number that a double holds is the same in both. -/
theorem WithFlag.number (hscan : api.ScansBigint) {v v' : Value} (h : WithFlag api f s v v')
    (hf : f.type = .longlong) {n : Int} {behind : Bytes} (hs : s = some ⟨numeral n, behind⟩)
    (hn : n.natAbs ≤ 2 ^ 53) (hsign : f.hasFlag unsignedFlag = true → 0 ≤ n) :
    v = .word (BitVec.ofInt 64 n) ∧ v' = .double (Ieee.ofInt n) := by
  cases h with
  | other hne => exact absurd hf hne
  | bigint _ x hx text htext =>
    cases hs.symm.trans hx
    rw [readCStr_mem (zero_not_mem_numeral n)] at htext
    cases htext
    have hrange :
        if f.hasFlag unsignedFlag then 0 ≤ n ∧ n < 2 ^ 64 else -2 ^ 63 ≤ n ∧ n < 2 ^ 63 := by
      split
      · next hflag =>
        have hpos := hsign hflag
        omega
      · omega
    rw [hscan.long _ n _ rfl hrange, hscan.double n _ rfl hn]
    exact ⟨rfl, rfl⟩

/-- The struct array without the flag, and the one with it. -/
structure StructWithFlag (api : ResultApi) (res : ResultSet) (p p' : Plhs) : Prop where
  entry : ∀ (i j : Nat) (f : MysqlField) (row : Row) (s : Option FieldValue), i < res.numRows →
    res.fields[j]? = some f → res.fetch i = some row → row[j]? = some s →
    ∃ v v', p.entry i j = some v ∧ p'.entry i j = some v' ∧ WithFlag api f s v v'
  own : ∀ (j : Nat) (f : MysqlField), res.fields[j]? = some f →
    OwnArray api false p j f ∧ OwnArray api true p' j f

theorem structWithFlag {p p' : Plhs} {t t' : List (List Value)}
    (h : ShowsTable api false res p t) (h' : ShowsTable api true res p' t')
    (hflag : RowsWithFlag api res 0 t t') : StructWithFlag api res p p' where
  entry i j f row s hi hf hrow hs := by
    have hj : j < res.fields.length := (List.getElem?_eq_some_iff.mp hf).1
    obtain ⟨vs, hvs⟩ : ∃ vs, t[i]? = some vs :=
      ⟨_, List.getElem?_eq_getElem (by rw [h.height]; exact hi)⟩
    obtain ⟨vs', hvs'⟩ : ∃ vs', t'[i]? = some vs' :=
      ⟨_, List.getElem?_eq_getElem (by rw [h'.height]; exact hi)⟩
    obtain ⟨v, hv⟩ : ∃ v, vs[j]? = some v :=
      ⟨_, List.getElem?_eq_getElem (by rw [h.width vs (List.mem_of_getElem? hvs)]; exact hj)⟩
    obtain ⟨v', hv'⟩ : ∃ v', vs'[j]? = some v' :=
      ⟨_, List.getElem?_eq_getElem (by rw [h'.width vs' (List.mem_of_getElem? hvs')]; exact hj)⟩
    exact ⟨v, v', h.entry i j vs v hvs hv, h'.entry i j vs' v' hvs' hv',
      hflag i row vs vs' (by rwa [Nat.zero_add]) hvs hvs' j f s v v' hf hs hv hv'⟩
  own j f hf := ⟨h.own j f hf, h'.own j f hf⟩

theorem tableOf_flag
    (hmemory : ∀ toDouble, columnsFor api toDouble res.numRows res.fields = .ok ()) :
    Outcome.AlikeUnless (NullBigintIn res 0 res.numRows) .nullBigint
      (fun t' t => RowsWithFlag api res 0 t t') (tableOf api true res) (tableOf api false res) := by
  unfold tableOf
  cases api.createStructMatrix (res.fields.map MysqlField.name) with
  | false => exact Or.inl (Or.inr ⟨.raised .createStructure, rfl, rfl⟩)
  | true =>
    rw [if_pos rfl, if_pos rfl, hmemory, hmemory]
    exact rowsFrom_flag 0 res.numRows

/-- **The flag changes the BIGINT columns alone.**  Without it the fetch ends as it does with it, or
with an error where a BIGINT is NULL; all entries but those of the BIGINT columns are the same, and
so are the numbers there that a double holds. -/
theorem fetchOutput_toDouble (hapi : api.Resolves) (hscan : api.ScansBigint)
    (hnames : DistinctNames res.fields)
    (hmemory : ∀ toDouble, columnsFor api toDouble res.numRows res.fields = .ok ()) :
    Outcome.AlikeUnless (NullBigintIn res 0 res.numRows) .nullBigint
      (fun o' o => ∃ p' p, o' = some p' ∧ o = some p ∧ StructWithFlag api res p p' ∧
        ∀ (i j : Nat) (f : MysqlField) (row : Row) (n : Int) (behind : Bytes), i < res.numRows →
          res.fields[j]? = some f → f.type = .longlong → res.fetch i = some row →
          row[j]? = some (some ⟨numeral n, behind⟩) → n.natAbs ≤ 2 ^ 53 →
          (f.hasFlag unsignedFlag = true → 0 ≤ n) →
          p.entry i j = some (.word (BitVec.ofInt 64 n)) ∧
            p'.entry i j = some (.double (Ieee.ofInt n)))
      (fetchOutput api 1 true res).out (fetchOutput api 1 false res).out := by
  have h := (tableOf_flag hmemory).through (fetchOutput_alike hapi hnames)
    (fetchOutput_alike hapi hnames)
  refine h.mono fun o' o ho => ?_
  obtain ⟨t', t, ⟨p', ho', hp'⟩, ⟨p, ho, hp⟩, hflag⟩ := ho
  have hstruct := structWithFlag hp hp' hflag
  refine ⟨p', p, ho', ho, hstruct, fun i j f row n behind hi hf hbig hrow hs hn hsign => ?_⟩
  obtain ⟨v, v', hv, hv', hw⟩ := hstruct.entry i j f row _ hi hf hrow hs
  obtain ⟨rfl, rfl⟩ := hw.number hscan hbig rfl hn hsign
  exact ⟨hv, hv'⟩

end

theorem plainResultApi_scansBigint : plainResultApi.ScansBigint :=
  ⟨fun _ _ _ hs _ => congrArg (Option.map (BitVec.ofInt 64)) (scanWhole_numeral hs),
    fun _ _ hs _ => congrArg (Option.map Ieee.ofInt) (scanWhole_numeral hs)⟩

/-- A string and a BIGINT 1. -/
theorem fetchOutput_toDouble_two :
    ∃ p' p, (fetchOutput plainResultApi 1 true twoNames).out = .ok (some p') ∧
      (fetchOutput plainResultApi 1 false twoNames).out = .ok (some p) ∧
      StructWithFlag plainResultApi twoNames p p' ∧
      p.entry 0 1 = some (.word 1) ∧ p'.entry 0 1 = some (.double (Ieee.ofInt 1)) := by
  have hplain : (fetchOutput plainResultApi 1 false twoNames).out.stop = none := rfl
  have hflag : (fetchOutput plainResultApi 1 true twoNames).out.stop = none := rfl
  rcases fetchOutput_toDouble plainResultApi_resolves plainResultApi_scansBigint
    (show DistinctNames twoNames.fields by rw [DistinctNames]; decide)
    (fun toDouble => by cases toDouble <;> rfl) with
    (⟨o', o, ho', ho, ⟨p', p, rfl, rfl, hstruct, hnumber⟩, -⟩ | ⟨c, hc, -⟩) | ⟨-, hraised⟩
  · have hone := hnumber 0 1 _ _ 1 [] Nat.one_pos rfl rfl rfl rfl (by decide) fun _ => by decide
    exact ⟨p', p, ho', ho, hstruct, hone.1, hone.2⟩
  · cases hflag.symm.trans hc
  · rw [hraised] at hplain
    cases hplain

end Mym
