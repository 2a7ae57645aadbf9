import Mym.Lib.Literal
import Mym.Statement

/-!
# What the server makes of a statement

The server reads a statement as plain text with literals between quotes in it, in which a backslash says
that the next byte is to be decoded.  Quotes in comments and in the names between backticks begin no
literal.  `mysqlTable` is how the server reads in its default SQL mode, and `mysql_real_escape_string`
is the escaping that belongs to it.  A query with placeholders is a template with holes.

`statement_tokens` says that the statement the query branch sends is read like its template: in each
literal the placeholders have become the bytes that are stored for their arguments, whatever these are,
and nothing else has changed.
-/

namespace Mym

/-! ### Escaping -/

def mysqlCode (b : UInt8) : Option UInt8 :=
  if b = 0 then some 48
  else if b = 10 then some 110
  else if b = 13 then some 114
  else if b = 26 then some 90
  else if b = 34 ∨ b = 39 ∨ b = 92 then some b
  else none

/-- A byte behind a backslash, as the server reads it.  Wildcards keep their backslash. -/
def mysqlDecode (c : UInt8) : Bytes :=
  if c = 37 ∨ c = 95 then [backslash, c]
  else if c = 48 then [0]
  else if c = 98 then [8]
  else if c = 110 then [10]
  else if c = 114 then [13]
  else if c = 116 then [9]
  else if c = 90 then [26]
  else [c]

/-! ### Comments and names -/

/-- Where a statement is, outside of its literals. -/
inductive Passage where
  | code
  /-- behind `-`, `--`, and `/` -/
  | dash
  | dashes
  | slash
  /-- behind the two bytes that open a comment -/
  | opened
  | block
  /-- behind a `*` in a comment -/
  | star
  | line
  /-- between backticks -/
  | name
  /-- a comment that the server does not skip -/
  | special
  deriving DecidableEq, Repr

namespace Passage

/-- A byte of the code. -/
def enter (b : UInt8) : Passage :=
  if b = 45 then .dash
  else if b = 47 then .slash
  else if b = 35 then .line
  else if b = 96 then .name
  else .code

def step : Passage → UInt8 → Passage
  | .code, b => enter b
  | .dash, b => if b = 45 then .dashes else enter b
  -- two dashes begin a comment if a blank or a control character is next
  | .dashes, b =>
    if b = 10 then .code
    else if b ≤ 32 ∨ b = 127 then .line
    else if b = 45 then .dashes
    else enter b
  | .slash, b => if b = 42 then .opened else enter b
  -- a comment that begins with `!`, `+` or `M` may be a hint, or code
  | .opened, b => if b = 33 ∨ b = 43 ∨ b = 77 then .special else if b = 42 then .star else .block
  | .block, b => if b = 42 then .star else .block
  | .star, b => if b = 47 then .code else if b = 42 then .star else .block
  | .line, b => if b = 10 then .code else .line
  | .name, b => if b = 96 then .code else .name
  | .special, _ => .special

/-- Quotes begin literals here. -/
def opens : Passage → Bool
  | .code | .dash | .dashes | .slash => true
  | _ => false

/-- The passage goes on behind a number. -/
def skip : Passage → Passage
  | .code | .dash | .dashes | .slash => .code
  | .opened | .block | .star => .block
  | w => w

def ends : Passage → Bool
  | .line => true
  | w => w.opens

end Passage

/-- The two kinds of quotes, the bytes that are escaped, and where quotes are looked at. -/
def mysqlTable : EscapeTable UInt8 Passage where
  mark := backslash
  isQuote b := b == 34 || b == 39
  code := mysqlCode
  decode := mysqlDecode
  decode_code {b c} h := by
    unfold mysqlCode at h
    split_ifs at h with h0 h1 h2 h3 h4
    · cases h
      exact congrArg (fun b => [b]) h0.symm
    · cases h
      exact congrArg (fun b => [b]) h1.symm
    · cases h
      exact congrArg (fun b => [b]) h2.symm
    · cases h
      exact congrArg (fun b => [b]) h3.symm
    · cases h
      rcases h4 with rfl | rfl | rfl <;> rfl
  mark_coded := by decide
  quote_coded {q} h := by
    rcases (Bool.or_eq_true _ _).mp h with h | h
    · rw [eq_of_beq h]
      decide
    · rw [eq_of_beq h]
      decide
  start := .code
  step := Passage.step
  opens := Passage.opens
  skip := Passage.skip
  ends := Passage.ends

/-- `#'` and a newline, with a literal behind it. -/
example : (lex mysqlTable ([35, 39, 10, 39, 97, 39].map .inl) : Option (List (Token mysqlTable Nat)))
    = some ([35, 39, 10].map (fun b => .plain (.inl b)) ++ [.literal ⟨39, rfl⟩ [.inl 97]]) := rfl

theorem escape_mysqlTable : mysqlTable.escape = mysqlEscape := by
  funext bs
  refine List.flatMap_congr fun b _ => ?_
  have hcode : mysqlTable.code b = mysqlCode b := rfl
  rw [hcode, mysqlCode]
  split_ifs <;> rfl

/-! ### Queries as templates -/

/-- The placeholders are holes, numbered from `k` on. -/
def templateFrom (tail : Bytes) : Nat → Pieces → List (Symbol UInt8 Nat)
  | _, [] => tail.map .inl
  | k, p :: ps => p.before.map .inl ++ .inr k :: templateFrom tail (k + 1) ps

def templateOf (ps : Pieces) (tail : Bytes) : List (Symbol UInt8 Nat) := templateFrom tail 0 ps

/-- What fills a hole. -/
def filling (ss : List Bytes) (k : Nat) : Bytes := ss[k]?.getD []

theorem written_text (f : Nat → Bytes) (bs : Bytes) :
    (bs.map Sum.inl).flatMap (Lexer.written mysqlTable f) = bs.map .inl := by
  induction bs with
  | nil => rfl
  | cons b bs ih => rw [List.map_cons, List.flatMap_cons, ih]; rfl

theorem filling_append (done ss : List Bytes) (s : Bytes) :
    filling (done ++ s :: ss) done.length = s := by
  rw [filling, List.getElem?_append_right (Nat.le_refl _), Nat.sub_self]
  rfl

/-- The filled template is the new query. -/
theorem written_templateFrom (done : List Bytes) {ps : Pieces} {ss : List Bytes}
    (hlen : ss.length = ps.length) (tail : Bytes) :
    (templateFrom tail done.length ps).flatMap (Lexer.written mysqlTable (filling (done ++ ss)))
      = (splice mysqlEscape ps ss ++ tail).map .inl := by
  induction ps generalizing ss done with
  | nil =>
    obtain rfl := List.length_eq_zero_iff.mp hlen
    exact written_text _ tail
  | cons p ps ih =>
    cases ss with
    | nil => cases hlen
    | cons s ss =>
      have hhole : Lexer.written mysqlTable (filling (done ++ s :: ss)) (.inr done.length)
          = (mysqlEscape s).map .inl := by
        rw [Lexer.written, Sum.elim_inr, filling_append, escape_mysqlTable]
      have hrest := ih (done ++ [s]) (Nat.succ.inj hlen)
      rw [List.length_append, List.length_singleton, List.append_assoc, List.singleton_append] at hrest
      rw [templateFrom, List.flatMap_append, List.flatMap_cons, written_text, hhole, hrest, splice_cons]
      simp only [List.map_append, List.append_assoc]

theorem hole_lt_from {tail : Bytes} {j k : Nat} {ps : Pieces}
    (h : .inr k ∈ templateFrom tail j ps) : k < j + ps.length := by
  induction ps generalizing j with
  | nil =>
    obtain ⟨b, -, hb⟩ := List.mem_map.mp h
    cases hb
  | cons p ps ih =>
    rw [List.length_cons]
    rcases List.mem_append.mp h with h | h
    · obtain ⟨b, -, hb⟩ := List.mem_map.mp h
      cases hb
    · rcases List.mem_cons.mp h with h | h
      · cases h
        omega
      · have := ih h
        omega

theorem hole_lt {tail : Bytes} {k : Nat} {ps : Pieces} (h : .inr k ∈ templateOf ps tail) :
    k < ps.length := by
  have := hole_lt_from h
  omega

/-! ### The statement -/

/-- The query begins with text that is no blank, and that CREATE and ALTER do not begin with. -/
structure Settled (first : Bytes) : Prop where
  head : ∃ b ∈ first.head?, isspace b = false
  other : ∀ s, isCreateOrAlter (first ++ s) = false

/-- The text in front of the first placeholder. -/
def firstText (ps : Pieces) (tail : Bytes) : Bytes := (ps.head?.map Piece.before).getD tail

section

variable {zlib : Zlib} {ratioTest : (plen len : Nat) → Bool}
  {outer : CStr → Serializer → MxArray → Result Serial} {escape : Bytes → Bytes}
  {mxGetString : MxArray → Option CStr}

theorem splice_first (escape : Bytes → Bytes) {ps : Pieces} {ss : List Bytes}
    (hlen : ss.length = ps.length) (tail : Bytes) :
    ∃ s, splice escape ps ss ++ tail = firstText ps tail ++ s := by
  cases ps with
  | nil =>
    obtain rfl := List.length_eq_zero_iff.mp hlen
    exact ⟨[], (List.append_nil _).symm⟩
  | cons p ps =>
    cases ss with
    | nil => cases hlen
    | cons s ss =>
      refine ⟨escape s ++ splice escape ps ss ++ tail, ?_⟩
      rw [splice_cons]
      simp only [List.append_assoc]
      rfl

/-- Such a statement is sent as it is. -/
theorem braceStep_settled {first s : Bytes} (h : Settled first) :
    (first ++ s).head?.any isspace = false ∧ braceStep (first ++ s) = .ok (first ++ s) := by
  refine ⟨?_, ?_⟩
  · obtain ⟨b, hb, hspace⟩ := h.head
    rw [List.head?_append, Option.mem_def.mp hb]
    exact hspace
  · rw [braceStep, h.other s]
    rfl

/-- **The statement of a query with placeholders**, and whether it asks for doubles. -/
theorem statement_of_cut (hesc : Escapes escape) {q : Query} {args : List MxArray} {ps : Pieces}
    {tail : Bytes} (hcut : Cut q.text.1 args.length ps tail) (hfirst : Settled (firstText ps tail)) :
    statement zlib ratioTest outer escape mxGetString q args
      = countFlags mxGetString args.reverse >>= fun nb =>
        adjustFlags ps.length args.length nb >>= fun nb =>
        fieldsOf 0 ps args >>= fun _ => storedAll zlib ratioTest outer ps args >>= fun ss =>
        processFlags mxGetString nb args >>= fun on => .ok (splice escape ps ss ++ tail, on) := by
  have htext := processPlaceholders_text zlib ratioTest outer mxGetString hesc q args hcut
  have hsplit : statement zlib ratioTest outer escape mxGetString q args
      = (processPlaceholders zlib ratioTest outer escape mxGetString q args >>= fun r =>
        readCStr r.query 0 >>= fun s => .ok (s, r.nac, r.nbFlags)) >>= fun x =>
        (if x.1.1.head?.any isspace = true then .undefined else braceStep x.1.1) >>= fun text =>
        processFlags mxGetString x.2.2 args >>= fun on => .ok (text, on) := by
    rw [statement, Outcome.bind_assoc]
    apply Outcome.bind_congr
    intro r _
    rw [sendText_eq, Outcome.bind_assoc, Outcome.bind_assoc]
    apply Outcome.bind_congr
    intro s _
    rfl
  rw [hsplit, htext, Outcome.bind_assoc]
  apply Outcome.bind_congr
  intro nb _
  rw [Outcome.bind_assoc]
  apply Outcome.bind_congr
  intro nb' _
  rw [Outcome.bind_assoc]
  apply Outcome.bind_congr
  intro fs _
  rw [Outcome.bind_assoc]
  apply Outcome.bind_congr
  intro ss hss
  obtain ⟨s, hs⟩ := splice_first escape (storedAll_length hcut.le hss) tail
  obtain ⟨hhead, hbrace⟩ := braceStep_settled (s := s) hfirst
  rw [Outcome.ok_bind, hcut.textOf_splice hesc, hs, hhead, if_neg Bool.false_ne_true, hbrace,
    Outcome.ok_bind]

/-- Such a statement is the query with the escaped bytes of its arguments in it. -/
theorem statement_spliced (hesc : Escapes escape) {q : Query} {args : List MxArray} {ps : Pieces}
    {tail : Bytes} (hcut : Cut q.text.1 args.length ps tail) (hfirst : Settled (firstText ps tail))
    {text : Bytes} {on : Bool}
    (h : statement zlib ratioTest outer escape mxGetString q args = .ok (text, on)) :
    ∃ ss, storedAll zlib ratioTest outer ps args = .ok ss ∧ text = splice escape ps ss ++ tail := by
  rw [statement_of_cut hesc hcut hfirst] at h
  obtain ⟨nb, -, h⟩ := Outcome.bind_eq_ok h
  obtain ⟨nb', -, h⟩ := Outcome.bind_eq_ok h
  obtain ⟨fs, -, h⟩ := Outcome.bind_eq_ok h
  obtain ⟨ss, hss, h⟩ := Outcome.bind_eq_ok h
  obtain ⟨on', -, h⟩ := Outcome.bind_eq_ok h
  exact ⟨ss, hss, (Prod.mk.inj (Outcome.ok.inj h)).1.symm⟩

/-- A template with escaped bytes in it is read as the template with these bytes in its literals. -/
theorem lex_splice {ps : Pieces} {tail : Bytes} {toks : List (Token mysqlTable Nat)}
    (htoks : lex mysqlTable (templateOf ps tail) = some toks) {ss : List Bytes}
    (hlen : ss.length = ps.length)
    (hbare : ∀ k s, .plain (.inr k) ∈ toks → ss[k]? = some s → mysqlTable.Bare s) :
    lex mysqlTable ((splice mysqlEscape ps ss ++ tail).map .inl)
      = some (toks.flatMap (Token.fill (filling ss))) := by
  have hfilled := written_templateFrom [] hlen tail
  rw [List.nil_append] at hfilled
  rw [← hfilled]
  refine lex_fill htoks fun k hk => ?_
  have hlt : k < ss.length := by
    rw [hlen]
    exact hole_lt (mem_of_plain htoks hk)
  rw [filling, List.getElem?_eq_getElem hlt, Option.getD_some]
  exact hbare k _ hk (List.getElem?_eq_getElem hlt)

/-- **A statement is read like its template.** -/
theorem statement_tokens {q : Query} {args : List MxArray} {ps : Pieces} {tail : Bytes}
    (hcut : Cut q.text.1 args.length ps tail) (hfirst : Settled (firstText ps tail))
    {toks : List (Token mysqlTable Nat)} (htoks : lex mysqlTable (templateOf ps tail) = some toks)
    {text : Bytes} {on : Bool}
    (h : statement zlib ratioTest outer mysqlEscape mxGetString q args = .ok (text, on))
    (hbare : ∀ k x s, .plain (.inr k) ∈ toks → (ps.zip args)[k]? = some x →
      stored zlib ratioTest outer x.1.body x.2 = .ok s → mysqlTable.Bare s) :
    ∃ ss, List.Forall₂ (fun x s => stored zlib ratioTest outer x.1.body x.2 = .ok s)
        (ps.zip args) ss ∧
      lex mysqlTable (text.map .inl) = some (toks.flatMap (Token.fill (filling ss))) := by
  obtain ⟨ss, hss, rfl⟩ := statement_spliced mysqlEscape_escapes hcut hfirst h
  have hall := storedAll_ok hcut.le hss
  refine ⟨ss, hall, lex_splice htoks (storedAll_length hcut.le hss) fun k s hk hs => ?_⟩
  obtain ⟨hlt, rfl⟩ := List.getElem?_eq_some_iff.mp hs
  have hzip : k < (ps.zip args).length := by
    rw [hall.length_eq]
    exact hlt
  exact hbare k _ _ hk (List.getElem?_eq_getElem hzip) (hall.get hzip hlt)

end

theorem settled_of_letter {b : UInt8} (rest : Bytes) (hspace : isspace b = false)
    (hc : toLower b ≠ 99) (ha : toLower b ≠ 97) : Settled (b :: rest) where
  head := ⟨b, rfl, hspace⟩
  other s := by
    cases h : isCreateOrAlter (b :: rest ++ s) with
    | false => rfl
    | true =>
      obtain ⟨c, t, hct, hletter⟩ := isCreateOrAlter_cons h
      cases hct
      exact absurd hletter (not_or.mpr ⟨hc, ha⟩)

/-- `SET @q = '{B}'` -/
def setQuery : Query where
  text := ⟨[83, 69, 84, 32, 64, 113, 32, 61, 32, 39, 123, 66, 125, 39], by decide⟩
  length_lt := by decide

/-- The tokens of `SET @q = '` up to the quote. -/
def setTokens : List (Token mysqlTable Nat) :=
  [83, 69, 84, 32, 64, 113, 32, 61, 32].map fun b => .plain (.inl b)

/-- `SET @q = '` -/
def setPiece : Piece UInt8 := ⟨[83, 69, 84, 32, 64, 113, 32, 61, 32, 39], [66]⟩

theorem cut_setQuery : Cut setQuery.text.1 1 [setPiece] [39] where
  query := rfl
  leftmost p hp := by
    rw [List.mem_singleton.mp hp]
    decide
  le := Nat.le_refl 1
  last h := absurd h (Nat.lt_irrefl 1)

/-- A quote that is stored ends no literal. -/
theorem statement_tokens_quote : ∃ ss : List Bytes,
    List.Forall₂ (fun (x : Piece UInt8 × MxArray) s =>
        stored runZlib (fun _ _ => true) (fun _ _ _ => .undefined) x.1.body x.2 = .ok s)
      ([setPiece].zip [quoteArray]) ss ∧
    lex mysqlTable ((setPiece.before ++ [92, 39, 39]).map .inl)
      = some ((setTokens ++ [Token.literal ⟨39, rfl⟩ [.inr 0]]).flatMap (Token.fill (filling ss))) := by
  have hfirst : Settled (firstText [setPiece] [39]) :=
    settled_of_letter _ rfl (by decide) (by decide)
  refine @statement_tokens runZlib (fun _ _ => true) (fun _ _ _ => .undefined) (fun _ => none) setQuery
    [quoteArray] _ _ cut_setQuery hfirst (setTokens ++ [Token.literal ⟨39, rfl⟩ [.inr 0]]) rfl _
    false rfl ?_
  intro k x s hk
  simp [setTokens] at hk

end Mym
