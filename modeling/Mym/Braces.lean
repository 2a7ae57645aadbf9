import Mym.Statement

/-!
# Braces of a template

A `CREATE` or `ALTER` may hold braces of its own, with a backslash in front.  The placeholder scan
does not know about backslashes, and the brace step goes over the text with the arguments in it.

`survives_iff` says for which arguments the statement is the template with its braces unescaped and
the arguments as they are, and `escapesKept_iff` for which templates the braces that are escaped
are no placeholders.
-/

namespace Mym

section

variable {zlib : Zlib} {ratioTest : (plen len : Nat) → Bool}
  {outer : CStr → Serializer → MxArray → Result Serial} {escape : Bytes → Bytes}
  {mxGetString : MxArray → Option CStr}

/-! ### The beginning of a template -/

theorem isSubstringFount_nil (s : Bytes) :
    isSubstringFountAtTheBeginningCaseInsenstive s [] = true := by
  cases s <;> rfl

theorem isSubstringFount_append {a b s sub : Bytes} (hsub : toLower phOpen ∉ sub.map toLower)
    (h : isSubstringFountAtTheBeginningCaseInsenstive (a ++ phOpen :: b) sub = true) :
    isSubstringFountAtTheBeginningCaseInsenstive (a ++ s) sub = true := by
  induction sub generalizing a with
  | nil => exact isSubstringFount_nil _
  | cons c sub ih =>
    rw [List.map_cons, List.mem_cons, not_or] at hsub
    cases a with
    | nil => exact absurd (beq_iff_eq.mp (Bool.and_eq_true_iff.mp h).1) hsub.1
    | cons x a =>
      obtain ⟨hx, h⟩ := Bool.and_eq_true_iff.mp h
      exact Bool.and_eq_true_iff.mpr ⟨hx, ih hsub.2 h⟩

theorem isCreateOrAlter_append {a b s : Bytes} (h : isCreateOrAlter (a ++ phOpen :: b) = true) :
    isCreateOrAlter (a ++ s) = true := by
  rcases Bool.or_eq_true_iff.mp h with h | h
  · exact Bool.or_eq_true_iff.mpr (Or.inl (isSubstringFount_append (by decide) h))
  · exact Bool.or_eq_true_iff.mpr (Or.inr (isSubstringFount_append (by decide) h))

variable (escape) in
theorem isCreateOrAlter_splice {q tail : Bytes} {ps : Pieces} {ss : List Bytes}
    (hq : q = joined phOpen phClose ps ++ tail) (h : isCreateOrAlter q = true)
    (hlen : ss.length = ps.length) : isCreateOrAlter (splice escape ps ss ++ tail) = true := by
  cases ps with
  | nil =>
    rw [hq] at h
    rw [List.length_eq_zero_iff.mp hlen]
    exact h
  | cons p ps =>
    cases ss with
    | nil => cases hlen
    | cons s ss =>
      rw [hq, joined_cons, Piece.text, List.append_assoc, List.append_assoc, List.cons_append] at h
      rw [splice_cons, List.append_assoc, List.append_assoc]
      exact isCreateOrAlter_append h

/-! ### Texts -/

theorem hasBrace_append (s t : Bytes) : HasBrace (s ++ t) ↔ HasBrace s ∨ HasBrace t := by
  simp only [HasBrace, List.mem_append, or_and_right, exists_or]

/-- Every brace of the texts between the placeholders is escaped. -/
def PlainTexts (ps : Pieces) (tail : Bytes) : Prop :=
  (∀ p ∈ ps, PlainText p.before) ∧ PlainText tail

instance (ps : Pieces) (tail : Bytes) : Decidable (PlainTexts ps tail) :=
  inferInstanceAs (Decidable (_ ∧ _))

/-- Some text between the placeholders has a brace. -/
def TextBrace (ps : Pieces) (tail : Bytes) : Prop :=
  (∃ p ∈ ps, HasBrace p.before) ∨ HasBrace tail

instance (ps : Pieces) (tail : Bytes) : Decidable (TextBrace ps tail) :=
  inferInstanceAs (Decidable (_ ∨ _))

/-- The pieces with the braces of their texts unescaped. -/
def unescapedTexts (ps : Pieces) : Pieces :=
  ps.map fun p => { p with before := unescapeBraces p.before }

/-- What a template is to become: its texts with their braces unescaped, and between them the
escaped bytes of the arguments.  A brace in a text that is not escaped is an error. -/
def templateStatement (escape : Bytes → Bytes) (ps : Pieces) (tail : Bytes) (ss : List Bytes) :
    Result Bytes :=
  if PlainTexts ps tail then .ok (splice escape (unescapedTexts ps) ss ++ unescapeBraces tail)
  else .raised .bareBrace

/-- No argument brings a brace. -/
def NoBraces (escape : Bytes → Bytes) (ss : List Bytes) : Prop :=
  ∀ s ∈ ss, ∀ b ∈ escape s, isBrace b = false

instance (escape : Bytes → Bytes) (ss : List Bytes) : Decidable (NoBraces escape ss) :=
  decidable_of_iff ((ss.all fun s => (escape s).all fun b => !isBrace b) = true) (by simp [NoBraces])

theorem plainText_splice {ps : Pieces} {tail : Bytes} {ss : List Bytes} (hlen : ss.length = ps.length)
    (h : PlainTexts ps tail) (hno : NoBraces escape ss) :
    PlainText (splice escape ps ss ++ tail) ∧ unescapeBraces (splice escape ps ss ++ tail)
      = splice escape (unescapedTexts ps) ss ++ unescapeBraces tail := by
  induction ps generalizing ss with
  | nil =>
    rw [List.length_eq_zero_iff.mp hlen]
    exact ⟨h.2, rfl⟩
  | cons p ps ih =>
    cases ss with
    | nil => cases hlen
    | cons s ss =>
      obtain ⟨hrest, hunesc⟩ := ih (Nat.succ.inj hlen)
        ⟨fun x hx => h.1 x (List.mem_cons_of_mem p hx), h.2⟩
        fun x hx => hno x (List.mem_cons_of_mem s hx)
      have harg : PlainText (escape s) := guarded_of_none (hno s List.mem_cons_self)
      have hmore := harg.append hrest
      rw [splice_cons, List.append_assoc, List.append_assoc]
      refine ⟨(h.1 p List.mem_cons_self).append hmore, ?_⟩
      rw [unescapeBraces, unmark_append _ hmore.1, unmark_append _ hrest.1,
        unmark_of_none (hno s List.mem_cons_self)]
      show _ ++ (_ ++ unescapeBraces (splice escape ps ss ++ tail)) = _
      rw [hunesc]
      simp [unescapedTexts, splice_cons]

theorem hasBrace_splice {ps : Pieces} {tail : Bytes} {ss : List Bytes} (hlen : ss.length = ps.length)
    (hno : NoBraces escape ss) : HasBrace (splice escape ps ss ++ tail) ↔ TextBrace ps tail := by
  induction ps generalizing ss with
  | nil =>
    rw [List.length_eq_zero_iff.mp hlen]
    simp [TextBrace, splice]
  | cons p ps ih =>
    cases ss with
    | nil => cases hlen
    | cons s ss =>
      have hrest := ih (Nat.succ.inj hlen) fun x hx => hno x (List.mem_cons_of_mem s hx)
      have harg : ¬HasBrace (escape s) := by
        rintro ⟨b, hb, hbrace⟩
        rw [hno s List.mem_cons_self b hb] at hbrace
        cases hbrace
      rw [splice_cons, List.append_assoc, List.append_assoc, hasBrace_append, hasBrace_append,
        hrest, TextBrace, TextBrace, List.exists_mem_cons_iff, or_iff_right harg, or_assoc]

variable (escape) in
/-- What the brace step would take away if it knew what is text. -/
theorem length_unescapedTexts {ps : Pieces} {tail : Bytes} {ss : List Bytes}
    (hlen : ss.length = ps.length) (h : PlainTexts ps tail) :
    (splice escape (unescapedTexts ps) ss ++ unescapeBraces tail).length +
        (splice escape ps ss ++ tail).countP isBrace
      = (splice escape ps ss ++ tail).length +
        (ss.map fun s => (escape s).countP isBrace).sum := by
  induction ps generalizing ss with
  | nil =>
    rw [List.length_eq_zero_iff.mp hlen]
    exact h.2.length_unmark
  | cons p ps ih =>
    cases ss with
    | nil => cases hlen
    | cons s ss =>
      have hrest := ih (Nat.succ.inj hlen) ⟨fun x hx => h.1 x (List.mem_cons_of_mem p hx), h.2⟩
      have hp : (unescapeBraces p.before).length + p.before.countP isBrace = p.before.length :=
        (h.1 p List.mem_cons_self).length_unmark
      have hunesc : unescapedTexts (p :: ps)
          = { p with before := unescapeBraces p.before } :: unescapedTexts ps := rfl
      rw [hunesc, splice_cons, splice_cons, List.map_cons, List.sum_cons]
      simp only [List.append_assoc, List.length_append, List.countP_append] at hrest ⊢
      omega

/-- Once its arguments are in it, a template is unescaped as it should be when they bring no
brace. -/
theorem unescapeBraces_splice_iff {ps : Pieces} {tail : Bytes} {ss : List Bytes}
    (hlen : ss.length = ps.length) (h : PlainTexts ps tail)
    (hplain : PlainText (splice escape ps ss ++ tail)) :
    unescapeBraces (splice escape ps ss ++ tail)
      = splice escape (unescapedTexts ps) ss ++ unescapeBraces tail ↔ NoBraces escape ss := by
  refine ⟨?_, ?_⟩
  · intro heq s hs b hb
    have hcount := length_unescapedTexts escape hlen h
    have hmerged : (unescapeBraces (splice escape ps ss ++ tail)).length
        + (splice escape ps ss ++ tail).countP isBrace = (splice escape ps ss ++ tail).length :=
      hplain.length_unmark
    rw [← heq] at hcount
    have hsum : (ss.map fun s => (escape s).countP isBrace).sum = 0 := by
      omega
    have hzero := List.sum_eq_zero_iff_forall_eq_nat.mp hsum _ (List.mem_map_of_mem hs)
    exact Bool.eq_false_iff.mpr (List.countP_eq_zero.mp hzero b hb)
  · exact fun hno => (plainText_splice hlen h hno).2

/-! ### Arguments -/

theorem Substituted.eq_splice {q r : Bytes} {args : List MxArray} {n : Nat}
    (h : Substituted zlib ratioTest outer escape q args n r) {ps : Pieces} {tail : Bytes}
    (hcut : Cut q args.length ps tail) {ss : List Bytes}
    (hss : storedAll zlib ratioTest outer ps args = .ok ss) : r = splice escape ps ss ++ tail := by
  obtain ⟨ps', tail', ss', hcut', -, hss', rfl, -⟩ := h
  obtain ⟨rfl, rfl⟩ := hcut.unique hcut'
  have hunique : Relator.RightUnique fun (x : Piece UInt8 × MxArray) s =>
      stored zlib ratioTest outer x.1.body x.2 = .ok s :=
    fun _ _ _ h h' => Outcome.ok.inj (h.symm.trans h')
  rw [List.right_unique_forall₂' hunique hss' (storedAll_ok hcut.le hss)]

/-- Once a `CREATE` or `ALTER` has been accepted, the text that is sent is what the brace step makes
of it. -/
theorem statementText_accepted (hesc : Escapes escape) {q : Query}
    (hq : isCreateOrAlter q.text.1 = true) {args : List MxArray} {r : Processed}
    (hr : processPlaceholders zlib ratioTest outer escape mxGetString q args = .ok r)
    {ps : Pieces} {tail : Bytes} (hcut : Cut q.text.1 args.length ps tail) {ss : List Bytes}
    (hss : storedAll zlib ratioTest outer ps args = .ok ss) :
    statementText zlib ratioTest outer escape mxGetString q args
      = if PlainText (splice escape ps ss ++ tail) then
          if HasBrace (splice escape ps ss ++ tail) then
            .ok (unescapeBraces (splice escape ps ss ++ tail))
          else .outside
        else .raised .bareBrace := by
  obtain ⟨s, hs, hsub⟩ := (processPlaceholders_exact hesc mxGetString q args).1 r hr
  have htext := hsub.eq_splice hcut hss
  have hcreate := isCreateOrAlter_splice escape hcut.query hq
    (storedAll_length hcut.le hss)
  have hspace : ¬(splice escape ps ss ++ tail).head?.any isspace = true := by
    obtain ⟨c, t, hc, -⟩ := isCreateOrAlter_cons hcreate
    rw [hc]
    exact Bool.eq_false_iff.mp (isCreateOrAlter_head hcreate c (by rw [hc]; rfl)).2
  rw [statementText, hr, Outcome.ok_bind, sendText_eq, hs, Outcome.ok_bind, htext, if_neg hspace,
    braceStep_eq hcreate]

/-- The arguments of a template leave its braces alone, and the brace step leaves the arguments
alone: the template has no bare brace and the arguments bring none, or the template has one that is
still bare when the arguments stand beside it.  A template without a bare brace has some that are
escaped, since the buffer of the statement has no room for its terminator otherwise. -/
def BracesApart (escape : Bytes → Bytes) (ps : Pieces) (tail : Bytes) (ss : List Bytes) : Prop :=
  (PlainTexts ps tail ∧ TextBrace ps tail) ∧ NoBraces escape ss ∨
    ¬PlainTexts ps tail ∧ ¬PlainText (splice escape ps ss ++ tail)

/-- **When arguments survive `CREATE` and `ALTER`.** -/
theorem survives_iff (hesc : Escapes escape) {q : Query} (hq : isCreateOrAlter q.text.1 = true)
    {args : List MxArray} {r : Processed}
    (hr : processPlaceholders zlib ratioTest outer escape mxGetString q args = .ok r)
    {ps : Pieces} {tail : Bytes} (hcut : Cut q.text.1 args.length ps tail) {ss : List Bytes}
    (hss : storedAll zlib ratioTest outer ps args = .ok ss) :
    statementText zlib ratioTest outer escape mxGetString q args
      = templateStatement escape ps tail ss ↔ BracesApart escape ps tail ss := by
  have hlen := storedAll_length hcut.le hss
  rw [statementText_accepted hesc hq hr hcut hss, templateStatement, BracesApart]
  by_cases htexts : PlainTexts ps tail
  · rw [if_pos htexts]
    by_cases hplain : PlainText (splice escape ps ss ++ tail)
    · rw [if_pos hplain]
      by_cases hbrace : HasBrace (splice escape ps ss ++ tail)
      · rw [if_pos hbrace, Outcome.ok.injEq, unescapeBraces_splice_iff hlen htexts hplain]
        have htext : NoBraces escape ss → TextBrace ps tail := fun hno =>
          (hasBrace_splice hlen hno).mp hbrace
        simp only [htexts, true_and, not_true_eq_false, false_and, or_false]
        exact ⟨fun hno => ⟨htext hno, hno⟩, And.right⟩
      · rw [if_neg hbrace]
        have hnone : ¬(TextBrace ps tail ∧ NoBraces escape ss) := fun h =>
          hbrace ((hasBrace_splice hlen h.2).mpr h.1)
        simp [htexts, hnone]
    · rw [if_neg hplain]
      have hbraces : ¬NoBraces escape ss := fun hno => hplain (plainText_splice hlen htexts hno).1
      simp [htexts, hbraces]
  · rw [if_neg htexts]
    by_cases hplain : PlainText (splice escape ps ss ++ tail)
    · rw [if_pos hplain]
      by_cases hbrace : HasBrace (splice escape ps ss ++ tail)
      · rw [if_pos hbrace]
        simp [htexts, hplain]
      · rw [if_neg hbrace]
        simp [htexts, hplain]
    · rw [if_neg hplain]
      simp [htexts, hplain]

end

/-- `ALTER {B}` -/
def alterQuery : Query where
  text := ⟨[65, 76, 84, 69, 82, 32, 123, 66, 125], by decide⟩
  length_lt := by decide

/-- `uint8('{')` -/
def braceArray : MxArray :=
  .full ⟨MxClass.uint8.id, 1, [1, 1], [123], none, rfl, by simp⟩

def alterPieces : Pieces := [⟨[65, 76, 84, 69, 82, 32], [66]⟩]

theorem cut_alterQuery : Cut alterQuery.text.1 1 alterPieces [] where
  query := rfl
  leftmost p hp := by
    rw [List.mem_singleton.mp hp]
    decide
  le := Nat.le_refl 1
  last h := absurd h (Nat.lt_irrefl 1)

/-- `ALTER {B} \}` -/
def alterEscaped : Query where
  text := ⟨[65, 76, 84, 69, 82, 32, 123, 66, 125, 32, 92, 125], by decide⟩
  length_lt := by decide

theorem cut_alterEscaped : Cut alterEscaped.text.1 1 alterPieces [32, 92, 125] where
  query := rfl
  leftmost p hp := by
    rw [List.mem_singleton.mp hp]
    decide
  le := Nat.le_refl 1
  last h := absurd h (Nat.lt_irrefl 1)

theorem alterEscaped_quote :
    statementText runZlib (fun _ _ => true) (fun _ _ _ => .undefined) mysqlEscape (fun _ => none)
        alterEscaped [quoteArray] = templateStatement mysqlEscape alterPieces [32, 92, 125] [[39]] ∧
      templateStatement mysqlEscape alterPieces [32, 92, 125] [[39]]
        = .ok [65, 76, 84, 69, 82, 32, 92, 39, 32, 125] := by
  have hrun : processPlaceholders runZlib (fun _ _ => true) (fun _ _ _ => .undefined) mysqlEscape
      (fun _ => none) alterEscaped [quoteArray]
      = .ok ⟨[65, 76, 84, 69, 82, 32, 92, 39, 32, 92, 125, 0, 0, 0, 0], 12, 1, 0⟩ := by
    rfl
  have hstored : storedAll runZlib (fun _ _ => true) (fun _ _ _ => .undefined) alterPieces
      [quoteArray] = .ok [[39]] := rfl
  exact ⟨(survives_iff mysqlEscape_escapes rfl hrun cut_alterEscaped hstored).mpr
    (Or.inl (by decide)), rfl⟩

/-- **A brace does not.**  The argument is accepted and stored, and then taken for a placeholder. -/
theorem alterQuery_brace :
    (∃ r, processPlaceholders runZlib (fun _ _ => true) (fun _ _ _ => .undefined) mysqlEscape
      (fun _ => none) alterQuery [braceArray] = .ok r) ∧
    Cut alterQuery.text.1 1 alterPieces [] ∧
    storedAll runZlib (fun _ _ => true) (fun _ _ _ => .undefined) alterPieces [braceArray]
      = .ok [[123]] ∧
    templateStatement mysqlEscape alterPieces [] [[123]]
      = .ok [65, 76, 84, 69, 82, 32, 123] ∧
    statementText runZlib (fun _ _ => true) (fun _ _ _ => .undefined) mysqlEscape (fun _ => none)
      alterQuery [braceArray] = .raised .bareBrace :=
  ⟨⟨_, rfl⟩, cut_alterQuery, rfl, rfl, rfl⟩

end Mym
