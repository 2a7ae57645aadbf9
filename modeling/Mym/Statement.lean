import Mym.Lib.Heap
import Mym.Lib.Marks
import Mym.Substitution

/-!
# From the rebuilt query to the statement

What the query branch does with the new query before it is sent: blanks at the beginning are
removed, the braces of a `CREATE` or `ALTER` are unescaped, and the flags are read.

The query is a block on the heap, and `removeWhiteSpaceAtTheBeginning` is handed its address
by value.  `sendText_eq` and `sendText_space` say what comes of that: a query that begins
with a blank is freed, and otherwise the statement is that of the brace step.
-/

namespace Mym

/-! ### Blanks at the beginning -/

/-- `isspace` in the C locale. -/
def isspace (c : UInt8) : Bool := c == 32 || (9 ≤ c && c ≤ 13)

/-- `string` is a parameter by value: the caller keeps the address it has passed. -/
def removeWhiteSpaceAtTheBeginning (h : Heap) (string : Ptr) : Result Heap := do
  let mem ← h.load string
  let s ← readCStr mem 0
  match s.1 with
  | [] => .ok h
  | c :: cs =>
    if isspace c then
      -- the loop that looks for the end of the blanks knows spaces only
      let rest := cs.dropWhile (· == 32)
      let sanitized := h.alloc (rest ++ List.replicate (s.1.length - rest.length) 0)
      sanitized.1.free string
    else .ok h

/-! ### Braces -/

/-- `CREATE` -/
def createWord : Bytes := [67, 82, 69, 65, 84, 69]
/-- `ALTER` -/
def alterWord : Bytes := [65, 76, 84, 69, 82]

def backslash : UInt8 := 92

/-- `source` is a string without its NUL. -/
def isSubstringFountAtTheBeginningCaseInsenstive : (source sub : Bytes) → Bool
  | _, [] => true
  | [], c :: _ => toLower 0 == toLower c
  | b :: source, c :: sub =>
    toLower b == toLower c && isSubstringFountAtTheBeginningCaseInsenstive source sub

def isCreateOrAlter (query : Bytes) : Bool :=
  isSubstringFountAtTheBeginningCaseInsenstive query createWord ||
    isSubstringFountAtTheBeginningCaseInsenstive query alterWord

def isBrace (c : UInt8) : Bool := c == phOpen || c == phClose

/-- `parsedQueryString[parsedQueryStringCurrentIndex] = c`, behind what stands there. -/
def putBehind (capacity : Nat) (parsed : Bytes) (c : UInt8) : Result Bytes :=
  if parsed.length < capacity then .ok (parsed ++ [c]) else .outside

/-- The loop over the query.  `prev` is `query[i - 1]` if `i` is not 0, and `parsed` what stands in
front of the current index of `parsedQueryString`, which has `capacity` bytes. -/
def parseBraces (capacity : Nat) (prev : Option UInt8) (parsed : Bytes) : Bytes → Result Bytes
  | [] => do
    -- the ending character
    let _ ← putBehind capacity parsed 0
    .ok parsed
  | c :: rest =>
    match prev with
    | none => do
      let parsed ← putBehind capacity parsed c
      parseBraces capacity (some c) parsed rest
    | some p =>
      if isBrace c then
        if p ≠ backslash then .raised .bareBrace
        -- the index goes back by one, over the character written last
        else if parsed = [] then .outside
        else do
          let parsed ← putBehind capacity parsed.dropLast c
          parseBraces capacity (some c) parsed rest
      else do
        let parsed ← putBehind capacity parsed c
        parseBraces capacity (some c) parsed rest

/-- The curly bracket parsing, which only a `CREATE` or `ALTER` goes through.  `parsedQueryString`
has `strlen(query)` bytes. -/
def braceStep (query : Bytes) : Result Bytes :=
  if isCreateOrAlter query then parseBraces query.length none [] query else .ok query

/-- What the client is given for the query in the block `mem`. -/
def sendText (mem : Bytes) : Result Bytes := do
  let h := Heap.empty.alloc mem
  let query := h.2
  let h ← removeWhiteSpaceAtTheBeginning h.1 query
  let mem ← h.load query
  let s ← readCStr mem 0
  braceStep s.1

/-! ### Flags -/

/-- The loop over the last arguments, as many as there are flags: `FLAG_BIGINT_TO_DOUBLE` is set if
one of them is the flag word. -/
def readFlags (mxGetString : MxArray → Option CStr) : List MxArray → Result Bool
  | [] => .ok false
  | v :: vs => do
    let s ← getstring mxGetString v
    let on ← readFlags mxGetString vs
    .ok (strcaseEq s.1 mlFlagBigintToDouble || on)

/-- `int i=nrhs-nb_flags` -/
def processFlags (mxGetString : MxArray → Option CStr) (nbFlags : Nat) (args : List MxArray) :
    Result Bool :=
  readFlags mxGetString (args.drop (args.length - nbFlags))

section

variable (zlib : Zlib) (ratioTest : (plen len : Nat) → Bool)
  (outer : CStr → Serializer → MxArray → Result Serial) (escape : Bytes → Bytes)
  (mxGetString : MxArray → Option CStr)

/-- The text that is sent for a query. -/
def statementText (query : Query) (args : List MxArray) : Result Bytes := do
  let r ← processPlaceholders zlib ratioTest outer escape mxGetString query args
  sendText r.query

/-- The text that is sent, and whether BIGINT columns become double. -/
def statement (query : Query) (args : List MxArray) : Result (Bytes × Bool) := do
  let r ← processPlaceholders zlib ratioTest outer escape mxGetString query args
  let text ← sendText r.query
  let on ← processFlags mxGetString r.nbFlags args
  .ok (text, on)

end

/-! ### The brace step -/

/-- A text in which every brace has a backslash in front of it. -/
abbrev PlainText (s : Bytes) : Prop := Guarded backslash isBrace s

/-- Every backslash in front of a brace is left out. -/
abbrev unescapeBraces (s : Bytes) : Bytes := unmark backslash isBrace s

/-- Some brace is there, whose backslash leaves room for the terminator. -/
abbrev HasBrace (s : Bytes) : Prop := ∃ c ∈ s, isBrace c = true

theorem length_unescapeBraces_lt_iff {s : Bytes} (h : PlainText s) :
    (unescapeBraces s).length < s.length ↔ HasBrace s := by
  have hlen : (unescapeBraces s).length + s.countP isBrace = s.length := h.length_unmark
  have hpos : 0 < s.countP isBrace ↔ HasBrace s := List.countP_pos_iff
  rw [← hpos]
  omega

theorem putBehind_ok {capacity : Nat} {parsed : Bytes} (h : parsed.length < capacity) (c : UInt8) :
    putBehind capacity parsed c = .ok (parsed ++ [c]) :=
  if_pos h

/-- Once there is a character in front, the loop raises its error at a brace that is bare, and
leaves out the backslashes otherwise.  What it goes over has room, but its terminator may have
none. -/
theorem parseBraces_spec {capacity : Nat} (p : UInt8) (parsed rest : Bytes)
    (hroom : parsed.length + (p :: rest).length ≤ capacity) :
    parseBraces capacity (some p) (parsed ++ [p]) rest
      = if (p :: rest).IsChain (Behind backslash isBrace) then
          if (parsed ++ unescapeBraces (p :: rest)).length < capacity then
            .ok (parsed ++ unescapeBraces (p :: rest))
          else .outside
        else .raised .bareBrace := by
  induction rest generalizing p parsed with
  | nil =>
    rw [parseBraces, if_pos (List.isChain_singleton p), unescapeBraces, unmark_singleton, putBehind]
    by_cases hend : (parsed ++ [p]).length < capacity
    · rw [if_pos hend, if_pos hend, Outcome.ok_bind]
    · rw [if_neg hend, if_neg hend]
      rfl
  | cons c rest ih =>
    rw [List.length_cons, List.length_cons] at hroom
    simp only [List.isChain_cons_cons]
    rw [parseBraces]
    by_cases hc : isBrace c = true
    · rw [if_pos hc]
      by_cases hp : p = backslash
      · subst hp
        have hback : parsed.length + (c :: rest).length ≤ capacity := by
          rw [List.length_cons]
          omega
        rw [if_neg (not_not.mpr rfl), if_neg (by simp), List.dropLast_concat,
          putBehind_ok (by omega), Outcome.ok_bind, ih c parsed hback, unescapeBraces,
          unescapeBraces, unmark_mark hc]
        simp [Behind]
      · rw [if_pos hp, if_neg fun h => hp (h.1 hc)]
    · have hnext : (parsed ++ [p]).length + (c :: rest).length ≤ capacity := by
        rw [List.length_append, List.length_singleton, List.length_cons]
        omega
      rw [if_neg hc, putBehind_ok (by rw [List.length_append, List.length_singleton]; omega),
        Outcome.ok_bind, ih c (parsed ++ [p]) hnext, unescapeBraces, unescapeBraces,
        unmark_cons p hc, List.append_assoc]
      simp [Behind, hc]

theorem isCreateOrAlter_cons {s : Bytes} (h : isCreateOrAlter s = true) :
    ∃ c t, s = c :: t ∧ (toLower c = 99 ∨ toLower c = 97) := by
  cases s with
  | nil => exact absurd h (by decide)
  | cons c t =>
    refine ⟨c, t, rfl, ?_⟩
    rcases Bool.or_eq_true_iff.mp h with h | h
    · exact Or.inl (beq_iff_eq.mp (Bool.and_eq_true_iff.mp h).1)
    · exact Or.inr (beq_iff_eq.mp (Bool.and_eq_true_iff.mp h).1)

theorem isCreateOrAlter_head {s : Bytes} (h : isCreateOrAlter s = true) :
    ∀ c ∈ s.head?, isBrace c = false ∧ isspace c = false := by
  obtain ⟨c, t, rfl, hc⟩ := isCreateOrAlter_cons h
  rintro _ ⟨⟩
  have hletter : c = 67 ∨ c = 99 ∨ c = 65 ∨ c = 97 := by
    unfold toLower at hc
    split at hc
    · rcases hc with hc | hc
      · exact Or.inl (by grind)
      · exact Or.inr (Or.inr (Or.inl (by grind)))
    · rcases hc with hc | hc
      · exact Or.inr (Or.inl hc)
      · exact Or.inr (Or.inr (Or.inr hc))
  rcases hletter with rfl | rfl | rfl | rfl <;> decide

/-- **The brace step** raises its error at a bare brace, and leaves out the backslashes
otherwise.  Without any brace it writes behind its buffer. -/
theorem braceStep_eq {s : Bytes} (h : isCreateOrAlter s = true) :
    braceStep s = if PlainText s then
        if HasBrace s then .ok (unescapeBraces s) else .outside
      else .raised .bareBrace := by
  have hhead := isCreateOrAlter_head h
  obtain ⟨c, t, rfl, -⟩ := isCreateOrAlter_cons h
  have hplain : PlainText (c :: t) ↔ (c :: t).IsChain (Behind backslash isBrace) :=
    and_iff_right fun a ha => (hhead a ha).1
  have hspec := @parseBraces_spec (c :: t).length c [] t (Nat.zero_add _).le
  rw [List.nil_append, List.nil_append] at hspec
  rw [braceStep, if_pos h, parseBraces, putBehind_ok (Nat.succ_pos _), Outcome.ok_bind,
    List.nil_append, hspec]
  by_cases htext : PlainText (c :: t)
  · simp only [if_pos htext, if_pos (hplain.mp htext), length_unescapeBraces_lt_iff htext]
  · rw [if_neg htext, if_neg fun hchain => htext (hplain.mpr hchain)]

/-! ### The text that is sent -/

theorem removeWhiteSpaceAtTheBeginning_kept {h : Heap} {p : Ptr} {mem : Bytes} {s : CStr}
    (hp : h.load (ε := MexError) p = .ok mem) (hs : readCStr (ε := MexError) mem 0 = .ok s)
    (hhead : ¬s.1.head?.any isspace = true) : removeWhiteSpaceAtTheBeginning h p = .ok h := by
  rw [removeWhiteSpaceAtTheBeginning, hp, Outcome.ok_bind, hs, Outcome.ok_bind]
  cases hc : s.1 with
  | nil => rfl
  | cons c cs =>
    rw [hc] at hhead
    exact if_neg hhead

theorem removeWhiteSpaceAtTheBeginning_freed {h : Heap} {p : Ptr} {mem : Bytes} {s : CStr}
    (hp : h.load (ε := MexError) p = .ok mem) (hs : readCStr (ε := MexError) mem 0 = .ok s)
    (hhead : s.1.head?.any isspace = true) :
    ∃ h', removeWhiteSpaceAtTheBeginning h p = .ok h' ∧ h'.load (ε := MexError) p = .undefined := by
  cases hc : s.1 with
  | nil =>
    rw [hc] at hhead
    cases hhead
  | cons c cs =>
    have hspace : isspace c = true := by
      rw [hc] at hhead
      exact hhead
    rw [removeWhiteSpaceAtTheBeginning, hp, Outcome.ok_bind, hs, Outcome.ok_bind, hc]
    dsimp only
    rw [if_pos hspace]
    have hold := Heap.load_alloc_old h
      (cs.dropWhile (· == 32) ++ List.replicate ((c :: cs).length - (cs.dropWhile (· == 32)).length) 0)
      hp
    exact ⟨_, Heap.free_eq_ok hold, Heap.load_free (Heap.free_eq_ok hold)⟩

/-- The branch goes on with the address it has: a query that begins with a blank is gone, any other
goes through the brace step. -/
theorem sendText_eq (mem : Bytes) :
    sendText mem = readCStr mem 0 >>= fun s =>
      if s.1.head?.any isspace = true then .undefined else braceStep s.1 := by
  have hload := Heap.load_alloc (ε := MexError) Heap.empty mem
  rw [sendText]
  cases hs : readCStr (ε := MexError) mem 0 with
  | ok s =>
    rw [Outcome.ok_bind]
    by_cases hhead : s.1.head?.any isspace = true
    · obtain ⟨h', hfree, hdead⟩ := removeWhiteSpaceAtTheBeginning_freed hload hs hhead
      rw [hfree, Outcome.ok_bind, hdead, if_pos hhead]
      rfl
    · rw [removeWhiteSpaceAtTheBeginning_kept hload hs hhead, Outcome.ok_bind, hload,
        Outcome.ok_bind, hs, Outcome.ok_bind, if_neg hhead]
  | _ =>
    rw [removeWhiteSpaceAtTheBeginning, hload, Outcome.ok_bind, hs]
    rfl

/-! ### The new query -/

section

variable {zlib : Zlib} {ratioTest : (plen len : Nat) → Bool}
  {outer : CStr → Serializer → MxArray → Result Serial} {escape : Bytes → Bytes}
  {mxGetString : MxArray → Option CStr}

theorem fieldsOf_bind {α : Type} (x : Result α) {ps ps' : Pieces} (args : List MxArray)
    (h : ps.map Piece.body = ps'.map Piece.body) (b b' : Nat) :
    (fieldsOf b ps args >>= fun _ => x) = fieldsOf b' ps' args >>= fun _ => x := by
  induction ps generalizing ps' args b b' with
  | nil =>
    cases ps' with
    | nil => rfl
    | cons p' ps' => cases h
  | cons p ps ih =>
    cases ps' with
    | nil => cases h
    | cons p' ps' =>
      obtain ⟨hbody, hrest⟩ := List.cons.inj h
      cases args with
      | nil => rfl
      | cons v vs =>
        rw [fieldsOf, fieldsOf, hbody, Outcome.bind_assoc, Outcome.bind_assoc]
        apply Outcome.bind_congr
        intro f _
        rw [Outcome.bind_assoc, Outcome.bind_assoc]
        exact ih vs hrest _ _

theorem storedAll_congr {ps ps' : Pieces} (args : List MxArray)
    (h : ps.map Piece.body = ps'.map Piece.body) :
    storedAll zlib ratioTest outer ps args = storedAll zlib ratioTest outer ps' args := by
  induction ps generalizing ps' args with
  | nil =>
    cases ps' with
    | nil => rfl
    | cons p' ps' => cases h
  | cons p ps ih =>
    cases ps' with
    | nil => cases h
    | cons p' ps' =>
      obtain ⟨hbody, hrest⟩ := List.cons.inj h
      cases args with
      | nil => rfl
      | cons v vs => rw [storedAll, storedAll, hbody, ih vs hrest]

theorem fieldsOf_of_storedAll {ps : Pieces} {args : List MxArray} {ss : List Bytes}
    (h : storedAll zlib ratioTest outer ps args = .ok ss) (b : Nat) :
    ∃ fs, fieldsOf b ps args = .ok fs := by
  induction ps generalizing args ss b with
  | nil => exact ⟨[], rfl⟩
  | cons p ps ih =>
    cases args with
    | nil => exact ⟨[], rfl⟩
    | cons v vs =>
      obtain ⟨s, hs, h⟩ := Outcome.bind_eq_ok h
      obtain ⟨ss', hss, -⟩ := Outcome.bind_eq_ok h
      obtain ⟨f, hf, -⟩ := Outcome.bind_eq_ok hs
      obtain ⟨fs, hfs⟩ := ih hss (b + p.size)
      rw [fieldsOf, hf, Outcome.ok_bind, hfs]
      exact ⟨_, rfl⟩

theorem Cut.no_nul {q : CStr} {n : Nat} {ps : Pieces} {tail : Bytes} (h : Cut q.1 n ps tail) :
    (∀ p ∈ ps, (0 : UInt8) ∉ p.before) ∧ (0 : UInt8) ∉ tail := by
  refine ⟨fun p hp hmem => q.2 ?_, fun hmem => q.2 ?_⟩
  · rw [h.query]
    exact List.mem_append_left _ (mem_joined hp (Or.inl hmem))
  · rw [h.query]
    exact List.mem_append_right _ hmem

/-- The new query is a string, whatever the arguments hold. -/
theorem Cut.textOf_splice (hesc : Escapes escape) {q : CStr} {n : Nat} {ps : Pieces} {tail : Bytes}
    (h : Cut q.1 n ps tail) (ss : List Bytes) :
    (textOf (splice escape ps ss ++ tail)).1 = splice escape ps ss ++ tail := by
  apply textOf_eq
  intro hmem
  rcases List.mem_append.mp hmem with hmem | hmem
  · exact not_mem_splice hesc h.no_nul.1 hmem
  · exact h.no_nul.2 hmem

variable (zlib ratioTest outer mxGetString) in
/-- **The query with its placeholders filled**, as a string, and how its arguments are counted. -/
theorem processPlaceholders_text (hesc : Escapes escape) (q : Query) (args : List MxArray)
    {ps : Pieces} {tail : Bytes} (h : Cut q.text.1 args.length ps tail) :
    (processPlaceholders zlib ratioTest outer escape mxGetString q args >>= fun r =>
      readCStr r.query 0 >>= fun s => .ok (s, r.nac, r.nbFlags))
      = countFlags mxGetString args.reverse >>= fun nb =>
        adjustFlags ps.length args.length nb >>= fun nb =>
        fieldsOf 0 ps args >>= fun _ => storedAll zlib ratioTest outer ps args >>= fun ss =>
        .ok (textOf (splice escape ps ss ++ tail), ps.length, nb) := by
  rw [processPlaceholders, Outcome.bind_assoc]
  apply Outcome.bind_congr
  intro nb _
  by_cases hargs : args.length = 0
  · obtain rfl := List.length_eq_zero_iff.mp hargs
    obtain rfl := List.length_eq_zero_iff.mp (Nat.le_zero.mp h.le)
    have htail : q.text.1 = tail := h.query
    have htext : textOf (splice escape [] [] ++ tail) = q.text :=
      Subtype.ext ((textOf_eq h.no_nul.2).trans htail.symm)
    rw [if_pos hargs, Outcome.ok_bind, readCStr_of_at (at_self _), Outcome.ok_bind, ← htext]
    rfl
  rw [if_neg hargs]
  rcases scan_spec q.text.2 args.length with ⟨-, hopen⟩ | ⟨ps', tail', s, hscan, hend⟩
  · exact absurd hopen h.not_unclosed
  obtain ⟨rfl, rfl⟩ := h.unique hend.toCut
  rw [hscan, Outcome.ok_bind, Outcome.bind_assoc]
  apply Outcome.bind_congr
  intro nb _
  rw [fillPlaceholders_eq hend, Outcome.bind_assoc, Outcome.bind_assoc]
  apply Outcome.bind_congr
  intro fs hfs
  rw [Outcome.bind_assoc]
  apply Outcome.bind_congr
  intro ss hss
  obtain ⟨slack, hbuild⟩ := buildQuery_spec hesc tail (h.body_lt q.length_lt) h.le hfs
    (storedAll_length h.le hss)
  have hat : At (splice escape ps ss ++ (tail ++ [0]) ++ slack) 0
      ((textOf (splice escape ps ss ++ tail)).1 ++ [0]) := by
    rw [h.textOf_splice hesc, ← List.append_assoc]
    exact at_start _ _
  rw [hbuild, Outcome.ok_bind, Outcome.ok_bind, readCStr_of_at hat, Outcome.ok_bind]

theorem processPlaceholders_unclosed {q : Query} {args : List MxArray}
    (h : Unclosed q.text.1 args.length) :
    processPlaceholders zlib ratioTest outer escape mxGetString q args
      = countFlags mxGetString args.reverse >>= fun _ => .raised .placeholdersNotClosed := by
  rw [processPlaceholders]
  apply Outcome.bind_congr
  intro nb _
  have hargs : args.length ≠ 0 := by
    obtain ⟨ps, -, -, -, -, hlt, -⟩ := h
    omega
  rw [if_neg hargs]
  rcases scan_spec q.text.2 args.length with ⟨hscan, -⟩ | ⟨ps, tail, s, -, hend⟩
  · rw [hscan, Outcome.raised_bind]
  · exact absurd h hend.toCut.not_unclosed

variable (zlib ratioTest outer escape mxGetString) in
/-- The new query as it stands before blanks are removed. -/
def newQuery (q : Query) (args : List MxArray) : Result CStr := do
  let r ← processPlaceholders zlib ratioTest outer escape mxGetString q args
  readCStr r.query 0

theorem newQuery_of_cut (hesc : Escapes escape) (q : Query) (args : List MxArray)
    {ps : Pieces} {tail : Bytes} (h : Cut q.text.1 args.length ps tail) :
    newQuery zlib ratioTest outer escape mxGetString q args
      = countFlags mxGetString args.reverse >>= fun nb =>
        adjustFlags ps.length args.length nb >>= fun _ =>
        fieldsOf 0 ps args >>= fun _ => storedAll zlib ratioTest outer ps args >>= fun ss =>
        .ok (textOf (splice escape ps ss ++ tail)) := by
  have htext : newQuery zlib ratioTest outer escape mxGetString q args
      = (processPlaceholders zlib ratioTest outer escape mxGetString q args >>= fun r =>
        readCStr r.query 0 >>= fun s => .ok (s, r.nac, r.nbFlags)) >>= fun x => .ok x.1 := by
    rw [newQuery, Outcome.bind_assoc]
    apply Outcome.bind_congr
    intro r _
    rw [Outcome.bind_assoc]
    exact (Outcome.bind_ok _).symm
  rw [htext, processPlaceholders_text zlib ratioTest outer mxGetString hesc q args h]
  simp only [Outcome.bind_assoc, Outcome.ok_bind]

theorem statementText_newQuery (q : Query) (args : List MxArray) :
    statementText zlib ratioTest outer escape mxGetString q args
      = newQuery zlib ratioTest outer escape mxGetString q args >>= fun s =>
        if s.1.head?.any isspace = true then .undefined else braceStep s.1 := by
  rw [statementText, newQuery, Outcome.bind_assoc]
  exact Outcome.bind_congr fun r _ => sendText_eq r.query

end

end Mym
