import Mym.Template

/-!
# One role for every argument

The flag words are counted from the end of the arguments before the placeholders are known, and the
number is set right only when there are fewer placeholders than arguments.  `oneRole_iff` names
the one case in which an argument is both stored and read as a flag.
-/

namespace Mym

variable {mxGetString : MxArray → Option CStr}

/-- `bigint_to_double`, in any case. -/
def IsFlagWord (mxGetString : MxArray → Option CStr) (v : MxArray) : Prop :=
  v.classId = MxClass.char.id ∧
    ∃ s, mxGetString v = some s ∧ strcaseEq s.1 mlFlagBigintToDouble = true

/-! ### Counting -/

theorem getstring_eq_ok {v : MxArray} {s : CStr}
    (h : getstring mxGetString v = .ok s) : s ∈ mxGetString v := by
  unfold getstring at h
  split at h
  · next t ht =>
    cases h
    exact ht
  · cases h

theorem getstring_of_mem {v : MxArray} {s : CStr} (h : s ∈ mxGetString v) :
    getstring mxGetString v = .ok s := by
  rw [getstring, Option.mem_def.mp h]

/-- The count goes up to the first argument that is no flag word. -/
theorem countFlags_spec {vs : List MxArray} {n : Nat} (h : countFlags mxGetString vs = .ok n) :
    n ≤ vs.length ∧ (∀ v ∈ vs.take n, IsFlagWord mxGetString v) ∧
      (n = 0 → ∀ v ∈ vs.head?, ¬IsFlagWord mxGetString v) := by
  induction vs generalizing n with
  | nil =>
    cases h
    exact ⟨Nat.le_refl 0, fun v hv => by simp at hv, fun _ v hv => by simp at hv⟩
  | cons v vs ih =>
    have hstop : ∀ {m}, (.ok 0 : Result Nat) = .ok m → ¬IsFlagWord mxGetString v →
        m ≤ (v :: vs).length ∧ (∀ w ∈ (v :: vs).take m, IsFlagWord mxGetString w) ∧
          (m = 0 → ∀ w ∈ (v :: vs).head?, ¬IsFlagWord mxGetString w) := by
      rintro m ⟨⟩ hno
      refine ⟨Nat.zero_le _, fun w hw => by simp at hw, ?_⟩
      rintro - w ⟨⟩
      exact hno
    rw [countFlags] at h
    split at h
    · next hchar =>
      obtain ⟨s, hs, h⟩ := Outcome.bind_eq_ok h
      have hget : mxGetString v = some s := getstring_eq_ok hs
      split at h
      · next hword =>
        obtain ⟨m, hm, h⟩ := Outcome.bind_eq_ok h
        cases h
        obtain ⟨hle, htake, -⟩ := ih hm
        refine ⟨Nat.succ_le_succ hle, fun w hw => ?_, fun hzero => by cases hzero⟩
        rcases List.mem_cons.mp hw with rfl | hw
        · exact ⟨hchar, s, hget, hword⟩
        · exact htake w hw
      · next hword =>
        refine hstop h ?_
        intro hgiven
        obtain ⟨-, t, ht, hflag⟩ := hgiven
        obtain rfl : s = t := Option.some.inj (hget.symm.trans ht)
        exact hword hflag
    · next hchar => exact hstop h fun hflag => hchar hflag.1

theorem countFlags_eq_zero_iff {args : List MxArray} {n : Nat}
    (h : countFlags mxGetString args.reverse = .ok n) :
    n = 0 ↔ ¬∃ v ∈ args.getLast?, IsFlagWord mxGetString v := by
  obtain ⟨hle, htake, hzero⟩ := countFlags_spec h
  rw [← List.head?_reverse]
  refine ⟨?_, ?_⟩
  · rintro hn ⟨v, hv, hflag⟩
    exact hzero hn v hv hflag
  · intro hno
    by_contra hn
    obtain ⟨m, rfl⟩ := Nat.exists_eq_succ_of_ne_zero hn
    cases hargs : args.reverse with
    | nil =>
      rw [hargs] at hle
      cases hle
    | cons v vs =>
      rw [hargs] at htake hno
      exact hno ⟨v, rfl, htake v List.mem_cons_self⟩

theorem adjustFlags_eq_ok {nac expected nb n : Nat} (h : adjustFlags nac expected nb = .ok n) :
    nac < expected ∧ expected - nb ≤ nac ∧ n = expected - nac ∨ nac = expected ∧ n = nb := by
  unfold adjustFlags at h
  split at h
  · next hlt =>
    cases h
    exact Or.inl ⟨hlt.1, hlt.2, rfl⟩
  · split at h
    · cases h
    · next heq =>
      cases h
      exact Or.inr ⟨not_not.mp heq, rfl⟩

/-- How the arguments of an accepted query have been counted. -/
theorem processPlaceholders_flags {zlib : Zlib} {ratioTest : (plen len : Nat) → Bool}
    {outer : CStr → Serializer → MxArray → Result Serial} {escape : Bytes → Bytes}
    {q : Query} {args : List MxArray} {r : Processed}
    (h : processPlaceholders zlib ratioTest outer escape mxGetString q args = .ok r) :
    ∃ nb, countFlags mxGetString args.reverse = .ok nb ∧
      (r.nac < args.length ∧ args.length - nb ≤ r.nac ∧ r.nbFlags = args.length - r.nac ∨
        r.nac = args.length ∧ r.nbFlags = nb) := by
  obtain ⟨nb, hnb, h⟩ := Outcome.bind_eq_ok h
  refine ⟨nb, hnb, ?_⟩
  split at h
  · next hargs =>
    cases h
    exact Or.inr ⟨hargs.symm, rfl⟩
  · obtain ⟨s, -, h⟩ := Outcome.bind_eq_ok h
    obtain ⟨nb', hadjust, h⟩ := Outcome.bind_eq_ok h
    obtain ⟨x, -, h⟩ := Outcome.bind_eq_ok h
    cases h
    exact adjustFlags_eq_ok hadjust

/-! ### Reading -/

/-- Flag words switch the mode on, if there are any. -/
theorem readFlags_flagWords {vs : List MxArray} (h : ∀ v ∈ vs, IsFlagWord mxGetString v) :
    readFlags mxGetString vs = .ok (!vs.isEmpty) := by
  induction vs with
  | nil => rfl
  | cons v vs ih =>
    obtain ⟨-, s, hs, hword⟩ := h v List.mem_cons_self
    rw [readFlags, getstring_of_mem hs, Outcome.ok_bind,
      ih fun w hw => h w (List.mem_cons_of_mem v hw),
      Outcome.ok_bind, hword]
    rfl

/-! ### Roles -/

/-- Every argument plays one role: the first `nac` are put in the places of the placeholders, and
behind them stand flag words only, which are what the loop over the flags reads; the mode is on
if there are any. -/
structure OneRole (mxGetString : MxArray → Option CStr) (q : Query) (args : List MxArray)
    (r : Processed) (on : Bool) : Prop where
  stored : ∃ es, consumed (q.text.1 ++ [0]) args = .ok es ∧ es.map Prod.snd = args.take r.nac
  mode : on = true ↔ ∃ v ∈ args.drop r.nac, IsFlagWord mxGetString v
  surplus : ∀ v ∈ args.drop r.nac, IsFlagWord mxGetString v
  apart : r.nac ≤ args.length - r.nbFlags

theorem map_snd_zip {α β : Type} (a : List α) (b : List β) (h : a.length ≤ b.length) :
    (a.zip b).map Prod.snd = b.take a.length := by
  induction a generalizing b with
  | nil => rfl
  | cons x a ih =>
    cases b with
    | nil => cases h
    | cons y b =>
      rw [List.zip_cons_cons, List.map_cons, ih b (Nat.le_of_succ_le_succ h), List.length_cons,
        List.take_succ_cons]

theorem mem_take_reverse {α : Type} {l : List α} {a : α} {m n : Nat} (hmn : l.length - n ≤ m)
    (h : a ∈ l.drop m) : a ∈ l.reverse.take n := by
  rw [List.take_reverse, List.mem_reverse]
  apply List.mem_of_mem_drop (i := m - (l.length - n))
  rwa [List.drop_drop, Nat.add_sub_cancel' hmn]

variable {zlib : Zlib} {ratioTest : (plen len : Nat) → Bool}
  {outer : CStr → Serializer → MxArray → Result Serial} {escape : Bytes → Bytes}

/-- **When every argument plays one role:** unless every argument has a placeholder and the last
one is the flag word. -/
theorem oneRole_iff {q : Query} {args : List MxArray} {r : Processed}
    (h : processPlaceholders zlib ratioTest outer escape mxGetString q args = .ok r) {on : Bool}
    (hon : processFlags mxGetString r.nbFlags args = .ok on) {ps : Pieces} {tail : Bytes}
    (hcut : Cut q.text.1 args.length ps tail) :
    OneRole mxGetString q args r on ↔
      ¬(ps.length = args.length ∧ ∃ v ∈ args.getLast?, IsFlagWord mxGetString v) := by
  obtain ⟨ps', tail', hcut', hnac, hconsumed⟩ := processPlaceholders_consumed h
  obtain ⟨rfl, rfl⟩ := hcut.unique hcut'
  have hstored : ∃ es, consumed (q.text.1 ++ [0]) args = .ok es ∧
      es.map Prod.snd = args.take r.nac := by
    refine ⟨_, hconsumed, ?_⟩
    rw [map_snd_zip _ _ (by rw [length_places]; exact hcut.le), length_places, hnac]
  obtain ⟨nb, hnb, hflags⟩ := processPlaceholders_flags h
  obtain ⟨hle, htake, -⟩ := countFlags_spec hnb
  rw [processFlags] at hon
  rcases hflags with ⟨hlt, hrest, hnbFlags⟩ | ⟨heq, hnbFlags⟩
  · -- there are fewer placeholders, and the number of flags has been set right
    have hsurplus : ∀ v ∈ args.drop r.nac, IsFlagWord mxGetString v := by
      intro v hv
      exact htake v (mem_take_reverse hrest hv)
    have hdrop : args.length - r.nbFlags = r.nac := by omega
    rw [hdrop, readFlags_flagWords hsurplus, Outcome.ok.injEq] at hon
    have hne : args.drop r.nac ≠ [] := by
      intro hnil
      have := List.drop_eq_nil_iff.mp hnil
      omega
    refine iff_of_true ⟨hstored, ?_, hsurplus, by omega⟩ fun hfull => by omega
    obtain ⟨v, vs, hv⟩ := List.exists_cons_of_ne_nil hne
    rw [hv] at hon hsurplus ⊢
    exact iff_of_true hon.symm ⟨v, List.mem_cons_self, hsurplus v List.mem_cons_self⟩
  · have hnil : args.drop r.nac = [] := List.drop_eq_nil_iff.mpr (Nat.le_of_eq heq.symm)
    have hlength : ps.length = args.length := hnac.symm.trans heq
    rw [and_iff_right hlength, ← countFlags_eq_zero_iff hnb]
    refine ⟨?_, ?_⟩
    · -- flag words at the end have been stored
      intro hone
      have hapart := hone.apart
      rw [List.length_reverse] at hle
      omega
    · intro hnone
      rw [hnbFlags, hnone, Nat.sub_zero, List.drop_length] at hon
      refine ⟨hstored, ?_, ?_, by omega⟩
      · rw [hnil]
        cases hon
        simp
      · rw [hnil]
        simp

/-- `'bigint_to_double'` -/
def flagArray : MxArray :=
  .full ⟨MxClass.char.id, 2, [1, 16], mlFlagBigintToDouble.flatMap fun b => [b, 0], none, rfl,
    by simp⟩

/-- `SELECT {S}` -/
def selectString : Query where
  text := ⟨[83, 69, 76, 69, 67, 84, 32, 123, 83, 125], by decide⟩
  length_lt := by decide

def flagText : CStr := ⟨mlFlagBigintToDouble, by decide⟩

theorem cut_selectString {n : Nat} (hn : 0 < n) :
    Cut selectString.text.1 n [⟨[83, 69, 76, 69, 67, 84, 32], [83]⟩] [] where
  query := rfl
  leftmost p hp := by
    rw [List.mem_singleton.mp hp]
    decide
  le := hn
  last _ := List.not_mem_nil

theorem selectString_flag : ∃ r,
    processPlaceholders runZlib (fun _ _ => true) (fun _ _ _ => .ok ⟨[97], 1⟩) mysqlEscape
      (fun _ => some flagText) selectString [quoteArray, flagArray] = .ok r ∧
    OneRole (fun _ => some flagText) selectString [quoteArray, flagArray] r true := by
  have hrun : processPlaceholders runZlib (fun _ _ => true) (fun _ _ _ => .ok ⟨[97], 1⟩) mysqlEscape
      (fun _ => some flagText) selectString [quoteArray, flagArray]
      = .ok ⟨[83, 69, 76, 69, 67, 84, 32, 97, 0, 0, 0, 0, 0], 9, 1, 1⟩ := rfl
  refine ⟨_, hrun, (oneRole_iff hrun rfl (cut_selectString (by decide))).mpr ?_⟩
  intro hw
  obtain ⟨h, -⟩ := hw
  exact absurd h (by decide)

/-- **A flag word in a placeholder is stored and read as a flag.** -/
theorem selectString_both : ∃ r,
    processPlaceholders runZlib (fun _ _ => true) (fun _ _ _ => .ok ⟨mlFlagBigintToDouble, 16⟩)
      mysqlEscape (fun _ => some flagText) selectString [flagArray] = .ok r ∧
    consumed (selectString.text.1 ++ [0]) [flagArray] = .ok [((7, 9), flagArray)] ∧
    processFlags (fun _ => some flagText) r.nbFlags [flagArray] = .ok true ∧
    ¬OneRole (fun _ => some flagText) selectString [flagArray] r true := by
  refine ⟨_, rfl, rfl, rfl, fun h => ?_⟩
  obtain ⟨v, hv, -⟩ := h.mode.mp rfl
  exact absurd hv List.not_mem_nil

end Mym
