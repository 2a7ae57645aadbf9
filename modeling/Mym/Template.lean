import Mym.Braces

/-!
# Escaped braces and placeholders

In a `Template` every brace is escaped or belongs to a placeholder, and no opening brace of a
placeholder has a backslash in front of it.  The scan takes the first opening braces there are,
escaped or not, so it finds the placeholders of a template if it is one that can be cut at them
(`consumed_iff`).  `escapesKept_iff` goes on from there to the statement.
-/

namespace Mym

/-! ### What the scan takes -/

/-- The places of the placeholders with the arguments that are put there. -/
def consumed (mem : Bytes) (args : List MxArray) : Result (List ((Nat × Nat) × MxArray)) :=
  if args.length = 0 then .ok []
  else do
    let s ← scan mem args.length
    entries s 0 s.nac args

/-- Whatever is accepted has been put in the places of `consumed`. -/
theorem processPlaceholders_consumed {zlib : Zlib} {ratioTest : (plen len : Nat) → Bool}
    {outer : CStr → Serializer → MxArray → Result Serial} {escape : Bytes → Bytes}
    {mxGetString : MxArray → Option CStr} {q : Query} {args : List MxArray} {r : Processed}
    (hr : processPlaceholders zlib ratioTest outer escape mxGetString q args = .ok r) :
    ∃ ps tail, Cut q.text.1 args.length ps tail ∧ r.nac = ps.length ∧
      consumed (q.text.1 ++ [0]) args = .ok ((places 0 ps).zip args) := by
  obtain ⟨nb, -, hr⟩ := Outcome.bind_eq_ok hr
  by_cases hargs : args.length = 0
  · rw [if_pos hargs] at hr
    cases hr
    refine ⟨[], q.text.1, ⟨rfl, leftmost_nil _ _, Nat.zero_le _, fun hlt => ?_⟩, rfl, ?_⟩
    · exact absurd hlt (by rw [hargs]; decide)
    · rw [consumed, if_pos hargs]
      rfl
  rw [if_neg hargs] at hr
  rcases scan_spec q.text.2 args.length with ⟨hscan, -⟩ | ⟨ps, tail, s, hscan, hend⟩
  · rw [hscan] at hr
    cases hr
  rw [hscan, Outcome.ok_bind] at hr
  obtain ⟨nb', -, hr⟩ := Outcome.bind_eq_ok hr
  obtain ⟨x, -, hr⟩ := Outcome.bind_eq_ok hr
  cases hr
  refine ⟨ps, tail, hend.toCut, rfl, ?_⟩
  rw [consumed, if_neg hargs, hscan, Outcome.ok_bind]
  exact entries_spec (s := { s with nac := ps.length }) (l := []) hend.po hend.pc hend.le

theorem consumed_of_cut {q : CStr} {args : List MxArray} {ps : Pieces} {tail : Bytes}
    (h : Cut q.1 args.length ps tail) :
    consumed (q.1 ++ [0]) args = .ok ((places 0 ps).zip args) := by
  rw [consumed]
  split
  · next hargs =>
    rw [List.length_eq_zero_iff.mp hargs, List.zip_nil_right]
  rcases scan_spec q.2 args.length with ⟨-, hopen⟩ | ⟨ps', tail', s, hscan, hend⟩
  · exact absurd hopen h.not_unclosed
  obtain ⟨rfl, rfl⟩ := h.unique hend.toCut
  rw [hscan, Outcome.ok_bind]
  exact entries_spec (s := { s with nac := ps.length }) (l := []) hend.po hend.pc hend.le

theorem zip_left_inj {α β : Type} {a b : List α} {c : List β} (ha : a.length ≤ c.length)
    (hb : b.length ≤ c.length) (h : a.zip c = b.zip c) : a = b := by
  rw [← List.map_fst_zip ha, h, List.map_fst_zip hb]

/-- Pieces have the places that the scan takes if they are the cut of the query. -/
theorem consumed_iff {q : CStr} {args : List MxArray} {ps : Pieces} {tail : Bytes}
    (hq : q.1 = joined phOpen phClose ps ++ tail) (hle : ps.length ≤ args.length) :
    consumed (q.1 ++ [0]) args = .ok ((places 0 ps).zip args) ↔ Cut q.1 args.length ps tail := by
  refine ⟨fun h => ?_, consumed_of_cut⟩
  obtain ⟨ps', tail', hcut⟩ : ∃ ps' tail', Cut q.1 args.length ps' tail' := by
    rcases scan_spec q.2 args.length with ⟨hscan, hopen⟩ | ⟨ps', tail', s, -, hend⟩
    · obtain ⟨ps', t, u, -, -, hlt, -⟩ := hopen
      rw [consumed, if_neg (by omega), hscan] at h
      cases h
    · exact ⟨ps', tail', hend.toCut⟩
  rw [consumed_of_cut hcut, Outcome.ok.injEq] at h
  have hplaces := zip_left_inj (by rw [length_places]; exact hcut.le)
    (by rw [length_places]; exact hle) h
  obtain ⟨rfl, rfl⟩ := places_inj (hcut.query.symm.trans hq) hplaces
  exact hcut

/-! ### Templates -/

/-- A query in which every brace is escaped, or belongs to a placeholder whose opening brace has no
backslash in front of it. -/
structure Template (q : Bytes) (ps : Pieces) (tail : Bytes) : Prop where
  query : q = joined phOpen phClose ps ++ tail
  texts : PlainTexts ps tail
  bodies : ∀ p ∈ ps, ∀ b ∈ p.body, isBrace b = false
  opening : ∀ p ∈ ps, p.before.getLast? ≠ some backslash

/-- A template can be cut at its placeholders if no escaped brace stands in front of one of
them, or behind them when there are more arguments. -/
theorem Template.cut_iff {q : Bytes} {ps : Pieces} {tail : Bytes} (h : Template q ps tail) {n : Nat}
    (hle : ps.length ≤ n) :
    Cut q n ps tail ↔ (∀ p ∈ ps, phOpen ∉ p.before) ∧ (ps.length < n → phOpen ∉ tail) := by
  refine ⟨?_, ?_⟩
  · intro hcut
    exact ⟨fun p hp => (hcut.leftmost p hp).1, hcut.last⟩
  · rintro ⟨hbefore, hlast⟩
    refine ⟨h.query, fun p hp => ⟨hbefore p hp, fun hmem => ?_⟩, hle, hlast⟩
    exact absurd (h.bodies p hp phClose hmem) (by decide)

section

variable (zlib : Zlib) (ratioTest : (plen len : Nat) → Bool)
  (outer : CStr → Serializer → MxArray → Result Serial) (escape : Bytes → Bytes)
  (mxGetString : MxArray → Option CStr)

/-- The arguments that go with the placeholders: one for each of them, which its placeholder takes,
and flag words behind these. -/
structure Matching (ps : Pieces) (args : List MxArray) (ss : List Bytes) : Prop where
  le : ps.length ≤ args.length
  flags : ∃ nb, countFlags mxGetString args.reverse = .ok nb ∧ args.length - nb ≤ ps.length
  stored : storedAll zlib ratioTest outer ps args = .ok ss

/-- The placeholders of the template take the arguments, and each of its escaped braces arrives as
a plain one, whatever has become of the arguments in between. -/
def EscapesKept (q : Query) (ps : Pieces) (tail : Bytes) (args : List MxArray) : Prop :=
  consumed (q.text.1 ++ [0]) args = .ok ((places 0 ps).zip args) ∧
    ∃ xs, xs.length = ps.length ∧ statementText zlib ratioTest outer escape mxGetString q args
      = .ok (splice id (unescapedTexts ps) xs ++ unescapeBraces tail)

variable {zlib ratioTest outer escape mxGetString}

theorem adjustFlags_ok {nac expected nb : Nat} (hle : nac ≤ expected) (hnb : expected - nb ≤ nac) :
    ∃ n, adjustFlags nac expected nb = .ok n := by
  rw [adjustFlags]
  split
  · exact ⟨_, rfl⟩
  · rw [if_neg (by omega)]
    exact ⟨_, rfl⟩

/-- Arguments that match are accepted by a query that can be cut at its placeholders. -/
theorem Matching.statementText_eq (hesc : Escapes escape) {q : Query}
    (hq : isCreateOrAlter q.text.1 = true) {ps : Pieces} {tail : Bytes} {args : List MxArray}
    {ss : List Bytes} (h : Matching zlib ratioTest outer mxGetString ps args ss)
    (hcut : Cut q.text.1 args.length ps tail) :
    statementText zlib ratioTest outer escape mxGetString q args
      = if PlainText (splice escape ps ss ++ tail) then
          if HasBrace (splice escape ps ss ++ tail) then
            .ok (unescapeBraces (splice escape ps ss ++ tail))
          else .outside
        else .raised .bareBrace := by
  obtain ⟨nb, hnb, hflags⟩ := h.flags
  obtain ⟨nb', hadjust⟩ := adjustFlags_ok h.le hflags
  obtain ⟨fs, hfs⟩ := fieldsOf_of_storedAll h.stored 0
  have htext := processPlaceholders_text zlib ratioTest outer mxGetString hesc q args hcut
  rw [hnb, Outcome.ok_bind, hadjust, Outcome.ok_bind, hfs, Outcome.ok_bind, h.stored,
    Outcome.ok_bind] at htext
  obtain ⟨r, hr, -⟩ := Outcome.bind_eq_ok htext
  exact statementText_accepted hesc hq hr hcut h.stored

/-- The texts of a query are unescaped on their own, whatever stands in between. -/
theorem exists_unescaped_splice (escape : Bytes → Bytes) {ps : Pieces} (tail : Bytes) {ss : List Bytes}
    (hlen : ss.length = ps.length) (hopening : ∀ p ∈ ps, p.before.getLast? ≠ some backslash) :
    ∃ xs, xs.length = ps.length ∧ unescapeBraces (splice escape ps ss ++ tail)
      = splice id (unescapedTexts ps) xs ++ unescapeBraces tail := by
  induction ps generalizing ss with
  | nil =>
    rw [List.length_eq_zero_iff.mp hlen]
    exact ⟨[], rfl, rfl⟩
  | cons p ps ih =>
    cases ss with
    | nil => cases hlen
    | cons s ss =>
      obtain ⟨xs, hxs, hrest⟩ := ih (Nat.succ.inj hlen)
        fun x hx => hopening x (List.mem_cons_of_mem p hx)
      obtain ⟨x, hx⟩ := exists_unmark_append backslash isBrace (escape s)
        (splice escape ps ss ++ tail)
      refine ⟨x :: xs, by rw [List.length_cons, hxs, List.length_cons], ?_⟩
      rw [splice_cons, List.append_assoc, List.append_assoc, unescapeBraces,
        unmark_append_of_last (hopening p List.mem_cons_self), hx]
      show _ ++ (_ ++ unescapeBraces (splice escape ps ss ++ tail)) = _
      rw [hrest]
      simp [unescapedTexts, splice_cons]

/-- **When the escaped braces of a template are kept apart from its placeholders.**  A statement
without any brace has no room for its terminator. -/
theorem escapesKept_iff (hesc : Escapes escape) {q : Query} (hq : isCreateOrAlter q.text.1 = true)
    {ps : Pieces} {tail : Bytes} (ht : Template q.text.1 ps tail) {args : List MxArray}
    {ss : List Bytes} (hm : Matching zlib ratioTest outer mxGetString ps args ss) :
    EscapesKept zlib ratioTest outer escape mxGetString q ps tail args ↔
      (∀ p ∈ ps, phOpen ∉ p.before) ∧ (ps.length < args.length → phOpen ∉ tail) ∧
        PlainText (splice escape ps ss ++ tail) ∧ HasBrace (splice escape ps ss ++ tail) := by
  rw [EscapesKept, consumed_iff ht.query hm.le, ← and_assoc, ← ht.cut_iff hm.le]
  apply and_congr_right
  intro hcut
  rw [hm.statementText_eq hesc hq hcut]
  by_cases hplain : PlainText (splice escape ps ss ++ tail)
  · rw [if_pos hplain]
    by_cases hbrace : HasBrace (splice escape ps ss ++ tail)
    · rw [if_pos hbrace]
      refine iff_of_true ?_ ⟨hplain, hbrace⟩
      obtain ⟨xs, hxs, htext⟩ := exists_unescaped_splice escape tail
        (storedAll_length hm.le hm.stored) ht.opening
      exact ⟨xs, hxs, congrArg Outcome.ok htext⟩
    · rw [if_neg hbrace]
      refine iff_of_false ?_ fun h => hbrace h.2
      rintro ⟨xs, -, h⟩
      cases h
  · rw [if_neg hplain]
    refine iff_of_false ?_ fun h => hplain h.1
    rintro ⟨xs, -, h⟩
    cases h

end

/-- `ALTER \} {B} \{` -/
def escapedLast : Query where
  text := ⟨[65, 76, 84, 69, 82, 32, 92, 125, 32, 123, 66, 125, 32, 92, 123], by decide⟩
  length_lt := by decide

/-- `ALTER \{ {B}` -/
def escapedFirst : Query where
  text := ⟨[65, 76, 84, 69, 82, 32, 92, 123, 32, 123, 66, 125], by decide⟩
  length_lt := by decide

theorem template_escapedLast :
    Template escapedLast.text.1 [⟨[65, 76, 84, 69, 82, 32, 92, 125, 32], [66]⟩] [32, 92, 123] where
  query := rfl
  texts := by decide
  bodies p hp := by
    rw [List.mem_singleton.mp hp]
    exact not_special_of_any (by decide)
  opening := by decide

theorem template_escapedFirst :
    Template escapedFirst.text.1 [⟨[65, 76, 84, 69, 82, 32, 92, 123, 32], [66]⟩] [] where
  query := rfl
  texts := by decide
  bodies p hp := by
    rw [List.mem_singleton.mp hp]
    exact not_special_of_any (by decide)
  opening := by decide

theorem matching_quote (before : Bytes) :
    Matching runZlib (fun _ _ => true) (fun _ _ _ => .undefined) (fun _ => none) [⟨before, [66]⟩]
      [quoteArray] [[39]] where
  le := Nat.le_refl 1
  flags := ⟨0, rfl, Nat.le_refl 1⟩
  stored := rfl

/-- A closing brace may stand in front of a placeholder, and any brace behind it. -/
theorem escapedLast_kept :
    EscapesKept runZlib (fun _ _ => true) (fun _ _ _ => .undefined) mysqlEscape (fun _ => none)
      escapedLast [⟨[65, 76, 84, 69, 82, 32, 92, 125, 32], [66]⟩] [32, 92, 123] [quoteArray] :=
  (escapesKept_iff mysqlEscape_escapes rfl template_escapedLast (matching_quote _)).mpr
    ⟨by decide, by decide, by decide, by decide⟩

/-- **An escaped brace in front of a placeholder is taken for one.**  It goes as far as the end of the
placeholder, and its first letter is unknown. -/
theorem escapedFirst_taken :
    Template escapedFirst.text.1 [⟨[65, 76, 84, 69, 82, 32, 92, 123, 32], [66]⟩] [] ∧
    Matching runZlib (fun _ _ => true) (fun _ _ _ => .undefined) (fun _ => none)
      [⟨[65, 76, 84, 69, 82, 32, 92, 123, 32], [66]⟩] [quoteArray] [[39]] ∧
    consumed (escapedFirst.text.1 ++ [0]) [quoteArray] = .ok [((7, 11), quoteArray)] ∧
    statementText runZlib (fun _ _ => true) (fun _ _ _ => .undefined) mysqlEscape (fun _ => none)
      escapedFirst [quoteArray] = .raised .unknownPlaceholder ∧
    ¬EscapesKept runZlib (fun _ _ => true) (fun _ _ _ => .undefined) mysqlEscape (fun _ => none)
      escapedFirst [⟨[65, 76, 84, 69, 82, 32, 92, 123, 32], [66]⟩] [] [quoteArray] := by
  have hrun : statementText runZlib (fun _ _ => true) (fun _ _ _ => .undefined) mysqlEscape
      (fun _ => none) escapedFirst [quoteArray] = .raised .unknownPlaceholder := rfl
  refine ⟨template_escapedFirst, matching_quote _, rfl, hrun, ?_⟩
  rintro ⟨-, xs, -, htext⟩
  rw [hrun] at htext
  cases htext

end Mym
