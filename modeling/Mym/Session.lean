import Mym.CommandRoundTrip
import Mym.Contents
import Mym.Server

/-!
# Storing values and getting them back

A `StoredTable` is written by one statement with placeholders and is read by one query.  Its columns are
of any of the kinds of `ColumnKind`, and only numbers may stand outside of literals.  In a `Session` calls
of the program insert rows into it through any of the connections, between calls of any other kind that
leave it alone.

What is assumed about the server (`Keeps`) is what the two statements mean: an INSERT that it accepts adds a
row of the bytes that it has been given, and the SELECT returns these bytes.  The abstract table is the
list of the rows whose insertion came back without an error.

`session_rows` says that the server's table always reads as that list, and `session_fetch` that this
is what MATLAB gets: no entry is lost, none is stored twice, and none is changed.
-/

namespace Mym

/-- The call is about connection `i`, with the query `q` and the arguments `args` behind it. -/
def AsksFor (p : Platform) (prhs : List MxArray) (i : Slot) (q : Query) (args : List MxArray) : Prop :=
  ∃ id command, (parseId prhs).out = .ok (id, some i) ∧ prhs[id.jarg]? = some command ∧
    command.isChar = true ∧ p.mxGetString command = some q.text ∧ prhs.drop (id.jarg + 1) = args

/-- An INSERT with a placeholder for each column, and the SELECT that belongs to it. -/
structure StoredTable where
  insert : Query
  ps : Pieces
  tail : Bytes
  toks : List (Token mysqlTable Nat)
  kinds : List ColumnKind
  select : Query
  insert_cmd : classify insert.text = .CMD
  cut : Cut insert.text.1 ps.length ps tail
  settled : Settled (firstText ps tail)
  lexed : lex mysqlTable (templateOf ps tail) = some toks
  width : kinds.length = ps.length
  /-- only numbers stand outside of the literals -/
  quoted : ∀ k kind, .plain (.inr k) ∈ toks → kinds[k]? = some kind → kind = .bigint ∨ kind = .number
  select_cmd : classify select.text = .CMD
  select_plain : phOpen ∉ select.text.1
  select_settled : Settled select.text.1

namespace StoredTable

variable (table : StoredTable) (file : MxArray → Result Serial) (args : List MxArray)

/-- The arguments make the row `cs`. -/
structure MakesRow (cs : List Content) : Prop where
  number : args.length = table.ps.length
  kinds : cs.map Content.kind = table.kinds
  keepable : List.Forall₂ (fun (x : Piece UInt8 × MxArray) c => Keepable file x.1.body x.2 c)
    (table.ps.zip args) cs

/-- There is an argument for each placeholder, and a number where it stands outside of the literals. -/
structure Fits : Prop where
  number : args.length = table.ps.length
  outside : ∀ (k : Nat) (x : Piece UInt8 × MxArray), .plain (.inr k) ∈ table.toks →
    (table.ps.zip args)[k]? = some x → ∃ r n, x.2 = .full (RealScalar.array r) ∧ PrintsFloor x.1.body r n

end StoredTable

/-- The result set has the rows `t` of bytes in it, in columns of these kinds. -/
structure HoldsRows (res : ResultSet) (kinds : List ColumnKind) (t : List (List Bytes)) : Prop where
  height : res.numRows = t.length
  columns : List.Forall₂ ColumnKind.Describes kinds res.fields
  names : DistinctNames res.fields
  row : ∀ (i : Nat) (ss : List Bytes), t[i]? = some ss → ∃ row, res.fetch i = some row ∧
    List.Forall₂ (fun v s => ∃ behind : Bytes, v = some ⟨s, behind⟩ ∧ behind.length < 2 ^ 62) row ss

/-- What the two statements mean to the server, whose table is `rows`.  It may refuse either.  An INSERT
is the template with the escaped bytes of a row in it, and is read as the template with these bytes in
its literals. -/
structure Keeps {σ : Type} (srv : Server σ) (table : StoredTable) (rows : σ → List (List Bytes)) :
    Prop where
  start : rows srv.start = []
  insert : ∀ (s : σ) (text : Bytes) (ss : List Bytes), ss.length = table.ps.length →
    text = splice mysqlEscape table.ps ss ++ table.tail →
    lex mysqlTable (text.map .inl) = some (table.toks.flatMap (Token.fill (filling ss))) →
    ((srv.exec s text).2 = .done ∧ (List.Forall₂ ColumnKind.Takes table.kinds ss →
      rows (srv.exec s text).1 = rows s ++ [ss])) ∨
    (srv.exec s text).2 = .refused ∧ rows (srv.exec s text).1 = rows s
  select : ∀ s : σ, (srv.exec s table.select.text.1).2 = .refused ∨
    ∃ res, (srv.exec s table.select.text.1).2 = .rows res ∧ HoldsRows res table.kinds (rows s)

section

variable {σ : Type} (srv : Server σ) (p : Platform) (api : ResultApi) (table : StoredTable)
  (rows : σ → List (List Bytes)) (file : MxArray → Result Serial)

/-- A run, with the rows that have been inserted. -/
inductive Session : World → List (List Content) → Prop
  | start : Session World.start []
  /-- the call comes back without an error -/
  | inserted {w t i prhs args cs nlhs a out} (h : Session w t)
      (hasks : AsksFor p prhs i table.insert args) (hcs : table.MakesRow file args cs)
      (hok : (serve srv p api w nlhs prhs a).2 = .ok out) :
      Session (serve srv p api w nlhs prhs a).1 (t ++ [cs])
  | failed {w t i prhs args nlhs a} (h : Session w t)
      (hasks : AsksFor p prhs i table.insert args) (hfits : table.Fits args)
      (hno : ∀ out, (serve srv p api w nlhs prhs a).2 ≠ .ok out) :
      Session (serve srv p api w nlhs prhs a).1 t
  /-- a call that sends nothing, or a statement that leaves the table alone -/
  | other {w t prhs nlhs a} (h : Session w t)
      (hkeeps : ∀ stmt on, statementOf p prhs = .ok (some (stmt, on)) →
        ∀ s, rows (srv.exec s stmt).1 = rows s) :
      Session (serve srv p api w nlhs prhs a).1 t

end

/-- A number outside, where the row is made of entries. -/
theorem StoredTable.MakesRow.fits {table : StoredTable} {file : MxArray → Result Serial}
    {args : List MxArray} {cs : List Content} (h : table.MakesRow file args cs) : table.Fits args where
  number := h.number
  outside := by
    intro k x hout hx
    obtain ⟨hk, rfl⟩ := List.getElem?_eq_some_iff.mp hx
    have hk' : k < cs.length := h.keepable.length_eq ▸ hk
    have hkind : table.kinds[k]? = some cs[k].kind := by
      rw [← h.kinds, List.getElem?_map, List.getElem?_eq_getElem hk']
      rfl
    exact (h.keepable.get hk hk').printsFloor (table.quoted k _ hout hkind)

/-! ### The two statements -/

section

variable {p : Platform} {prhs : List MxArray} {i : Slot} {q : Query} {args : List MxArray}

theorem AsksFor.statementOf (h : AsksFor p prhs i q args) (hq : classify q.text = .CMD) :
    statementOf p prhs
      = statement p.zlib p.ratioTest p.outer p.escape p.mxGetString q args >>= fun s => .ok (some s) := by
  obtain ⟨id, command, hid, hcommand, hchar, hquery, rfl⟩ := h
  have hjarg : id.jarg < prhs.length := (List.getElem?_eq_some_iff.mp hcommand).1
  rw [Mym.statementOf, hid, Outcome.ok_bind]
  dsimp only
  rw [parseCommand_out p hcommand hchar, getstring_of_mem hquery, Outcome.ok_bind, if_neg]
  · rw [Outcome.ok_bind]
    dsimp only
    rw [if_pos hq, statementAt_out p hjarg q]
  · rintro ⟨hne, -⟩
    exact hne hq

theorem AsksFor.mym_eq (h : AsksFor p prhs i q args) (hq : classify q.text = .CMD) (w : World)
    (nlhs : Nat) (a : Answers) :
    mym p w nlhs prhs a
      = giving (cmdBranch w i { a with
          prepared := statement p.zlib p.ratioTest p.outer p.escape p.mxGetString q args >>= fun s =>
            .ok s.1 }) fun _ =>
          statement p.zlib p.ratioTest p.outer p.escape p.mxGetString q args >>= fun s =>
            .ok (.rows s.2) := by
  obtain ⟨id, command, hid, hcommand, hchar, hquery, rfl⟩ := h
  have hjarg : id.jarg < prhs.length := (List.getElem?_eq_some_iff.mp hcommand).1
  have hparse : (parseCommand p prhs id.jarg).out = .ok (.CMD, q.text) := by
    rw [parseCommand_out p hcommand hchar, getstring_of_mem hquery, Outcome.ok_bind, if_neg]
    · rw [hq]
    · rintro ⟨hne, -⟩
      exact hne hq
  rw [mym, hid]
  dsimp only
  rw [commandBranch, hparse]
  dsimp only
  rw [← statementAt_out p hjarg q]
  rfl

theorem AsksFor.serve_open (h : AsksFor p prhs i q args) (hq : classify q.text = .CMD) {stmt : Bytes}
    {on : Bool} (hst : Mym.statementOf p prhs = .ok (some (stmt, on))) {σ : Type} (srv : Server σ)
    (api : ResultApi) {w : World} (hopen : (w.c i).isopen = true) (nlhs : Nat) {a : Answers}
    (hping : a.ping = true) :
    (serve srv p api w nlhs prhs a).2
      = if (srv.exec (srv.state w.log) stmt).2.results = 0 then .raised .client
        else (srv.exec (srv.state w.log) stmt).2.output api nlhs on := by
  have hstatement := hst
  rw [h.statementOf hq] at hstatement
  obtain ⟨s, hs, hsome⟩ := Outcome.bind_eq_ok hstatement
  cases hsome
  have hbranch := @cmdBranch_open w i { answered srv p api w nlhs prhs a with prepared := .ok stmt }
    hopen (by rw [answered, hst]; exact hping) stmt rfl
  show (mym p w nlhs prhs (answered srv p api w nlhs prhs a)).2 >>= _ = _
  rw [h.mym_eq hq, hs]
  show ((cmdBranch w i { answered srv p api w nlhs prhs a with prepared := .ok stmt }).2 >>= fun _ =>
    .ok (Output.rows on)) >>= _ = _
  rw [hbranch, answered, hst, Outcome.bind_assoc]
  exact Reply.output_behind _ api nlhs on

variable {table : StoredTable}

/-- The text of an INSERT, as the server reads it. -/
theorem insert_text (hescape : p.escape = mysqlEscape) {fuel : Nat} {lone : Nat → Nat} {junk : UInt8}
    {file : MxArray → Result Serial} (houter : p.outer = stringOrFile fuel lone junk file)
    (h : AsksFor p prhs i table.insert args) (hfits : table.Fits args) {stmt : Bytes} {on : Bool}
    (hst : Mym.statementOf p prhs = .ok (some (stmt, on))) :
    ∃ ss, List.Forall₂ (fun (x : Piece UInt8 × MxArray) s =>
        stored p.zlib p.ratioTest p.outer x.1.body x.2 = .ok s) (table.ps.zip args) ss ∧
      ss.length = table.ps.length ∧ stmt = splice mysqlEscape table.ps ss ++ table.tail ∧
      lex mysqlTable (stmt.map .inl) = some (table.toks.flatMap (Token.fill (filling ss))) := by
  rw [h.statementOf table.insert_cmd, hescape] at hst
  obtain ⟨x, hx, hstmt⟩ := Outcome.bind_eq_ok hst
  cases hstmt
  have hcut : Cut table.insert.text.1 args.length table.ps table.tail := hfits.number ▸ table.cut
  obtain ⟨ss, hss, rfl⟩ := statement_spliced mysqlEscape_escapes hcut table.settled hx
  have hall := storedAll_ok hcut.le hss
  have hlen := storedAll_length hcut.le hss
  refine ⟨ss, hall, hlen, rfl, lex_splice table.lexed hlen fun k s hout hs => ?_⟩
  obtain ⟨hlt, rfl⟩ := List.getElem?_eq_some_iff.mp hs
  have hzip : k < (table.ps.zip args).length := by
    rw [hall.length_eq]
    exact hlt
  have hstored := hall.get hzip hlt
  obtain ⟨r, n, hr, hprints⟩ := hfits.outside k _ hout (List.getElem?_eq_getElem hzip)
  rw [List.get_eq_getElem, hr, houter, stored_integer hprints] at hstored
  have hnumeral : numeral n = ss[k] := Outcome.ok.inj hstored
  exact hnumeral ▸ bare_numeral n

/-- The flag words at the end are counted, when every text among the arguments can be read. -/
theorem countFlags_ok {mxGetString : MxArray → Option CStr} {vs : List MxArray}
    (h : ∀ v ∈ vs, v.isChar = true → ∃ s, mxGetString v = some s) :
    ∃ nb, countFlags mxGetString vs = .ok nb := by
  induction vs with
  | nil => exact ⟨0, rfl⟩
  | cons v vs ih =>
    rw [countFlags]
    split
    · next hchar =>
      obtain ⟨s, hs⟩ := h v List.mem_cons_self (MxArray.isChar_iff.mpr hchar)
      obtain ⟨nb, hnb⟩ := ih fun v' hv' => h v' (List.mem_cons_of_mem v hv')
      rw [getstring_of_mem hs, Outcome.ok_bind, hnb]
      split
      · exact ⟨nb + 1, rfl⟩
      · exact ⟨0, rfl⟩
    · exact ⟨0, rfl⟩

/-- Values that can be stored make an INSERT. -/
theorem insert_asks (hescape : p.escape = mysqlEscape) (h : AsksFor p prhs i table.insert args)
    (hlen : args.length = table.ps.length) {ss : List Bytes}
    (hss : storedAll p.zlib p.ratioTest p.outer table.ps args = .ok ss)
    (hstrings : ∀ v ∈ args, v.isChar = true → ∃ s, p.mxGetString v = some s) :
    ∃ stmt on, Mym.statementOf p prhs = .ok (some (stmt, on)) := by
  have hcut : Cut table.insert.text.1 args.length table.ps table.tail := hlen ▸ table.cut
  have hstatement := @statement_of_cut p.zlib p.ratioTest p.outer mysqlEscape p.mxGetString
    mysqlEscape_escapes table.insert args table.ps table.tail hcut table.settled
  obtain ⟨nb, hnb⟩ : ∃ nb, countFlags p.mxGetString args.reverse = .ok nb :=
    countFlags_ok fun v hv => hstrings v (List.mem_reverse.mp hv)
  obtain ⟨fs, hfs⟩ := fieldsOf_of_storedAll hss 0
  have hadjust : adjustFlags table.ps.length args.length nb = .ok nb := by
    rw [adjustFlags, if_neg (by omega), if_neg (by omega)]
  have hflags : ∃ on, processFlags p.mxGetString nb args = .ok on := by
    refine ⟨_, readFlags_flagWords fun v hv => ?_⟩
    exact (countFlags_spec hnb).2.1 v (mem_take_reverse (Nat.le_refl _) hv)
  obtain ⟨on, hon⟩ := hflags
  rw [h.statementOf table.insert_cmd, hescape, hstatement, hnb, Outcome.ok_bind, hadjust,
    Outcome.ok_bind, hfs, Outcome.ok_bind, hss, Outcome.ok_bind, hon]
  exact ⟨_, on, rfl⟩

theorem countFlags_all {mxGetString : MxArray → Option CStr} {vs : List MxArray}
    (h : ∀ v ∈ vs, IsFlagWord mxGetString v) : countFlags mxGetString vs = .ok vs.length := by
  induction vs with
  | nil => rfl
  | cons v vs ih =>
    obtain ⟨hchar, s, hs, hword⟩ := h v List.mem_cons_self
    rw [countFlags, if_pos hchar, getstring_of_mem hs, Outcome.ok_bind, if_pos hword,
      ih fun v' hv' => h v' (List.mem_cons_of_mem v hv')]
    rfl

/-- The SELECT is sent as it is, and asks for doubles if there are flags behind it. -/
theorem select_text (hescape : p.escape = mysqlEscape) (h : AsksFor p prhs i table.select args)
    (hflags : ∀ v ∈ args, IsFlagWord p.mxGetString v) :
    Mym.statementOf p prhs = .ok (some (table.select.text.1, !args.isEmpty)) := by
  have hcut : Cut table.select.text.1 args.length [] table.select.text.1 :=
    ⟨rfl, fun p hp => absurd hp List.not_mem_nil, Nat.zero_le _, fun _ => table.select_plain⟩
  have hstatement := @statement_of_cut p.zlib p.ratioTest p.outer mysqlEscape p.mxGetString
    mysqlEscape_escapes table.select args [] table.select.text.1 hcut table.select_settled
  have hcount := countFlags_all fun v hv => hflags v (List.mem_reverse.mp hv)
  have hadjust : adjustFlags 0 args.length args.reverse.length = .ok args.length := by
    rw [adjustFlags, List.length_reverse]
    split
    · rfl
    · rw [if_neg (by omega)]
  have hon : processFlags p.mxGetString args.length args = .ok (!args.isEmpty) := by
    rw [processFlags, Nat.sub_self, List.drop_zero]
    exact readFlags_flagWords hflags
  rw [h.statementOf table.select_cmd, hescape, hstatement, hcount, Outcome.ok_bind, List.length_nil,
    hadjust, Outcome.ok_bind]
  show ((processFlags p.mxGetString args.length args >>= fun on => .ok (_, on)) >>= _) = _
  rw [hon]
  rfl

end

/-! ### Rows that read as entries -/

section

variable {api : ResultApi} {kinds : List ColumnKind}

/-- The bytes of a row are these entries. -/
structure RowReads (api : ResultApi) (kinds : List ColumnKind) (ss : List Bytes) (cs : List Content) :
    Prop where
  kinds : cs.map Content.kind = kinds
  reads : List.Forall₂ (Content.ReadsAs api) ss cs

theorem RowReads.takes {ss : List Bytes} {cs : List Content} (h : RowReads api kinds ss cs) :
    List.Forall₂ ColumnKind.Takes kinds ss := by
  rw [← h.kinds, List.forall₂_map_left_iff]
  exact h.reads.flip.imp fun _ _ hc => Content.ReadsAs.takes hc

/-- **What is stored for a row is that row.** -/
theorem StoredTable.MakesRow.reads {table : StoredTable} {file : MxArray → Result Serial}
    {args : List MxArray} {cs : List Content} (h : table.MakesRow file args cs)
    (hmemory : api.memory.Creates) (hz : api.zlib.Inverts) (h32 : api.use32 = false)
    {ratioTest : (plen len : Nat) → Bool} {fuel : Nat} {lone : Nat → Nat}
    (hlone : ∀ u, 0 < lone u ∧ lone u ≤ 0xFFFF) {junk : UInt8} {ss : List Bytes}
    (hss : List.Forall₂ (fun (x : Piece UInt8 × MxArray) s =>
      stored api.zlib ratioTest (stringOrFile fuel lone junk file) x.1.body x.2 = .ok s)
      (table.ps.zip args) ss) : RowReads api table.kinds ss cs where
  kinds := h.kinds
  reads := forall₂_through hss h.keepable fun _ _ _ hs hc => keeps_content hmemory hz h32 hlone hc hs

variable {toDouble : Bool} (hscan : api.Scans)

include hscan

theorem rowValues_content {fields : List MysqlField} {row : Row} {ss : List Bytes} {cs : List Content}
    (hfields : List.Forall₂ ColumnKind.Describes (cs.map Content.kind) fields)
    (hrow : List.Forall₂ (fun v s => ∃ behind : Bytes, v = some ⟨s, behind⟩ ∧ behind.length < 2 ^ 62)
      row ss) (hreads : List.Forall₂ (Content.ReadsAs api) ss cs) :
    rowValues api toDouble fields row = .ok (cs.map (Content.value api toDouble)) := by
  induction hrow generalizing fields cs with
  | nil =>
    cases hreads
    cases hfields
    rfl
  | cons hv _ ih =>
    obtain ⟨behind, rfl, hbehind⟩ := hv
    cases hreads with
    | cons hc hcs =>
      cases hfields with
      | cons hf hfs =>
        rw [rowValues, convert_content hscan hf hc hbehind, Outcome.ok_bind, ih hfs hcs]
        rfl

variable {res : ResultSet} {t : List (List Bytes)} (h : HoldsRows res kinds t)
  {vals : List (List Content)} (hvals : List.Forall₂ (RowReads api kinds) t vals)

include h hvals

theorem rowsFrom_content (n i : Nat) (hin : i + n = t.length) :
    rowsFrom api toDouble res i n
      = .ok ((vals.drop i).map fun cs => cs.map (Content.value api toDouble)) := by
  have hlen := hvals.length_eq
  induction n generalizing i with
  | zero =>
    rw [rowsFrom, List.drop_eq_nil_of_le (by omega)]
    rfl
  | succ n ih =>
    have hi : i < t.length := by omega
    have hi' : i < vals.length := by omega
    obtain ⟨row, hfetch, hrow⟩ := h.row i _ (List.getElem?_eq_getElem hi)
    have hreads : RowReads api kinds t[i] vals[i] := hvals.get hi hi'
    have hvalues : rowValues api toDouble res.fields row
        = .ok (vals[i].map (Content.value api toDouble)) :=
      rowValues_content hscan (hreads.kinds ▸ h.columns) hrow hreads.reads
    rw [rowsFrom, fetchRow_of_some hfetch, Outcome.ok_bind, hvalues, Outcome.ok_bind,
      ih (i + 1) (by omega), List.drop_eq_getElem_cons hi']
    rfl

/-- **The table of a result set of entries.** -/
theorem tableOf_content {x : List (List Value)} (hx : tableOf api toDouble res = .ok x) :
    x = vals.map fun cs => cs.map (Content.value api toDouble) := by
  rw [tableOf] at hx
  split at hx
  · obtain ⟨_, -, hrows⟩ := Outcome.bind_eq_ok hx
    rw [rowsFrom_content hscan h hvals res.numRows 0 (by rw [Nat.zero_add, h.height]), List.drop_zero]
      at hrows
    exact (Outcome.ok.inj hrows).symm
  · cases hx

end

/-! ### Runs -/

section

variable {σ : Type} {srv : Server σ} {p : Platform} {api : ResultApi} {table : StoredTable}
  {rows : σ → List (List Bytes)} (hkeeps : Keeps srv table rows) (hescape : p.escape = mysqlEscape)
  {fuel : Nat} {lone : Nat → Nat} {junk : UInt8} {file : MxArray → Result Serial}
  (houter : p.outer = stringOrFile fuel lone junk file)

include hkeeps hescape houter

/-- An INSERT adds its row if it comes back without an error, and only then. -/
theorem insert_rows {w : World} {i : Slot} {prhs args : List MxArray} {nlhs : Nat} {a : Answers}
    (hasks : AsksFor p prhs i table.insert args) (hfits : table.Fits args) :
    (∃ ss, (∃ out, (serve srv p api w nlhs prhs a).2 = .ok out) ∧
      List.Forall₂ (fun (x : Piece UInt8 × MxArray) s =>
        stored p.zlib p.ratioTest p.outer x.1.body x.2 = .ok s) (table.ps.zip args) ss ∧
      (List.Forall₂ ColumnKind.Takes table.kinds ss →
        rows (srv.state (serve srv p api w nlhs prhs a).1.log) = rows (srv.state w.log) ++ [ss])) ∨
    (∀ out, (serve srv p api w nlhs prhs a).2 ≠ .ok out) ∧
      rows (srv.state (serve srv p api w nlhs prhs a).1.log) = rows (srv.state w.log) := by
  rcases serve_sends srv p api w nlhs prhs a with
    ⟨hstate, hno⟩ | ⟨stmt, on, hst, hstate, hresult⟩
  · rcases hno with hnone | hno
    · obtain ⟨x, -, hx⟩ := Outcome.bind_eq_ok ((hasks.statementOf table.insert_cmd).symm.trans hnone)
      cases hx
    · exact Or.inr ⟨hno, congrArg rows hstate⟩
  · obtain ⟨ss, hss, hcount, htext, hlex⟩ := insert_text hescape houter hasks hfits hst
    rcases hkeeps.insert (srv.state w.log) stmt ss hcount htext hlex with ⟨hdone, hrows⟩ | ⟨hrefused, hrows⟩
    · refine Or.inl ⟨ss, ⟨none, ?_⟩, hss, fun htakes => by rw [hstate, hrows htakes]⟩
      rw [hresult, hdone]
      rfl
    · refine Or.inr ⟨fun out hout => ?_, by rw [hstate, hrows]⟩
      rw [hresult, hrefused] at hout
      cases hout

variable (hlone : ∀ u, 0 < lone u ∧ lone u ≤ 0xFFFF) (hmemory : api.memory.Creates)
  (hz : api.zlib.Inverts) (h32 : api.use32 = false) (hsame : api.zlib = p.zlib)

include hlone hmemory hz h32 hsame

/-- **The server's table reads as the rows that have been inserted.** -/
theorem session_rows {w : World} {t : List (List Content)}
    (h : Session srv p api table rows file w t) :
    List.Forall₂ (RowReads api table.kinds) (rows (srv.state w.log)) t := by
  induction h with
  | start =>
    rw [show srv.state World.start.log = srv.start from rfl, hkeeps.start]
    exact .nil
  | inserted _ hasks hcs hok ih =>
    rcases insert_rows hkeeps hescape houter hasks hcs.fits with ⟨ss, -, hss, hrows⟩ | ⟨hno, -⟩
    · rw [← hsame, houter] at hss
      have hreads := hcs.reads hmemory hz h32 hlone hss
      rw [hrows hreads.takes]
      exact List.rel_append ih (.cons hreads .nil)
    · exact absurd hok (hno _)
  | failed _ hasks hfits hno ih =>
    rcases insert_rows hkeeps hescape houter hasks hfits with ⟨ss, ⟨out, hout⟩, -⟩ | ⟨-, hrows⟩
    · exact absurd hout (hno out)
    · rw [hrows]
      exact ih
  | @other w t prhs nlhs a _ hleave ih =>
    rcases serve_sends srv p api w nlhs prhs a with ⟨hstate, -⟩ | ⟨stmt, on, hst, hstate, -⟩
    · rw [hstate]
      exact ih
    · rw [hstate, hleave stmt on hst]
      exact ih

/-- **What MATLAB gets**, with or without flags behind the SELECT. -/
theorem session_fetch (hapi : api.Resolves) (hscan : api.Scans) {w : World} {t : List (List Content)}
    (h : Session srv p api table rows file w t) {i : Slot} {prhs flags : List MxArray}
    (hasks : AsksFor p prhs i table.select flags) (hflags : ∀ v ∈ flags, IsFlagWord p.mxGetString v)
    {a : Answers} {out : Option Plhs} (hok : (serve srv p api w 1 prhs a).2 = .ok out) :
    ∃ res f, out = some f ∧ ShowsTable api (!flags.isEmpty) res f
      (t.map fun cs => cs.map (Content.value api (!flags.isEmpty))) := by
  have hrows := session_rows hkeeps hescape houter hlone hmemory hz h32 hsame h
  have hselect := select_text hescape hasks hflags
  rcases serve_sends srv p api w 1 prhs a with ⟨-, hno⟩ | ⟨stmt, on, hst, -, hresult⟩
  · rcases hno with hnone | hno
    · rw [hselect] at hnone
      cases hnone
    · exact absurd hok (hno out)
  · cases hselect.symm.trans hst
    rw [hresult] at hok
    rcases hkeeps.select (srv.state w.log) with hrefused | ⟨res, hres, hholds⟩
    · rw [hrefused] at hok
      cases hok
    · rw [hres] at hok
      obtain ⟨x, hx, f, hf, hshows⟩ := (fetchOutput_alike hapi hholds.names).of_ok hok
      rw [tableOf_content hscan hholds hrows hx] at hshows
      exact ⟨res, f, hf, hshows⟩

end

/-! ### A book of rows -/

/-- `INSERT t SET n='` -/
def numberPiece : Piece UInt8 := ⟨[73, 78, 83, 69, 82, 84, 32, 116, 32, 83, 69, 84, 32, 110, 61, 39], [83]⟩
/-- `',b='` -/
def blobPiece : Piece UInt8 := ⟨[39, 44, 98, 61, 39], [77]⟩
/-- `',s='` -/
def textPiece : Piece UInt8 := ⟨[39, 44, 115, 61, 39], [83]⟩

/-- What stands outside of the literals. -/
def bookPlain : Bytes := [73, 78, 83, 69, 82, 84, 32, 116, 32, 83, 69, 84, 32, 110, 61, 44, 98, 61, 44, 115, 61]

/-- `INSERT t SET n='{S}',b='{M}',s='{S}'` and `SELECT * FROM t` -/
def bookTable : StoredTable where
  insert := ⟨⟨numberPiece.before ++ [123, 83, 125] ++ blobPiece.before ++ [123, 77, 125] ++
    textPiece.before ++ [123, 83, 125, 39], by decide⟩, by decide⟩
  ps := [numberPiece, blobPiece, textPiece]
  tail := [39]
  toks := (bookPlain.take 15).map (fun b => .plain (.inl b)) ++ [.literal ⟨39, rfl⟩ [.inr 0]] ++
    ((bookPlain.drop 15).take 3).map (fun b => .plain (.inl b)) ++ [.literal ⟨39, rfl⟩ [.inr 1]] ++
    (bookPlain.drop 18).map (fun b => .plain (.inl b)) ++ [.literal ⟨39, rfl⟩ [.inr 2]]
  kinds := [.bigint, .blob, .text]
  select := ⟨⟨[83, 69, 76, 69, 67, 84, 32, 42, 32, 70, 82, 79, 77, 32, 116], by decide⟩, by decide⟩
  insert_cmd := by decide
  cut :=
    { query := rfl
      leftmost := by
        unfold Leftmost
        decide
      le := Nat.le_refl 3
      last := fun h => absurd h (Nat.lt_irrefl 3) }
  settled := settled_of_letter _ rfl (by decide) (by decide)
  lexed := rfl
  width := rfl
  quoted k kind h := by simp [bookPlain] at h
  select_cmd := by decide
  select_plain := by decide
  select_settled := settled_of_letter _ rfl (by decide) (by decide)

def plains (toks : List (Token mysqlTable Nat)) : Bytes :=
  toks.filterMap fun tok => match tok with
    | .plain (.inl b) => some b
    | _ => none

def literals (toks : List (Token mysqlTable Nat)) : List Bytes :=
  toks.filterMap fun tok => match tok with
    | .literal _ s => some (s.filterMap Sum.getLeft?)
    | _ => none

/-- The columns `n`, `b` and `s`. -/
def bookFields : List MysqlField :=
  [⟨⟨[110], by decide⟩, .longlong, 0, binaryCharset, 0⟩, ⟨⟨[98], by decide⟩, .blob, binaryFlag, binaryCharset, 0⟩,
    ⟨⟨[115], by decide⟩, .varString, 0, 33, 0⟩]

abbrev BookRow := Bytes × Bytes × Bytes

def BookRow.bytes (x : BookRow) : List Bytes := [x.1, x.2.1, x.2.2]

def bookRows (s : List BookRow) : ResultSet where
  fields := bookFields
  numRows := s.length
  fetch i := s[i]?.map fun x => x.bytes.map fun b => some ⟨b, []⟩
  fetch_length := by
    intro i row h
    obtain ⟨x, -, rfl⟩ := Option.map_eq_some_iff.mp h
    rfl

/-- A server that knows the two statements. -/
def bookServer : Server (List BookRow) where
  start := []
  exec s text :=
    if text = bookTable.select.text.1 then (s, .rows (bookRows s))
    else match lex mysqlTable (text.map .inl) with
      | some toks =>
        if plains toks = bookPlain then
          match literals toks with
          | [n, b, t] => (s ++ [(n, b, t)], .done)
          | _ => (s, .refused)
        else (s, .refused)
      | none => (s, .refused)

theorem book_tokens (n b t : Bytes) :
    plains (bookTable.toks.flatMap (Token.fill (filling [n, b, t]))) = bookPlain ∧
      literals (bookTable.toks.flatMap (Token.fill (filling [n, b, t]))) = [n, b, t] := by
  have hliteral : ∀ x : Bytes,
      (x.map Sum.inl ++ []).filterMap (Sum.getLeft? : Symbol UInt8 Nat → Option UInt8) = x := by
    intro x
    rw [List.append_nil, List.filterMap_map]
    exact List.filterMap_some
  refine ⟨rfl, ?_⟩
  show [(n.map Sum.inl ++ []).filterMap (Sum.getLeft? : Symbol UInt8 Nat → Option UInt8),
    (b.map Sum.inl ++ []).filterMap (Sum.getLeft? : Symbol UInt8 Nat → Option UInt8),
    (t.map Sum.inl ++ []).filterMap (Sum.getLeft? : Symbol UInt8 Nat → Option UInt8)] = [n, b, t]
  rw [hliteral, hliteral, hliteral]

/-- It takes every INSERT. -/
theorem bookServer_insert (s : List BookRow) {text : Bytes} {ss : List Bytes} (hlen : ss.length = 3)
    (hlex : lex mysqlTable (text.map .inl)
      = some (bookTable.toks.flatMap (Token.fill (filling ss)))) :
    (bookServer.exec s text).2 = .done ∧
      (bookServer.exec s text).1.map BookRow.bytes = s.map BookRow.bytes ++ [ss] := by
  obtain ⟨n, b, t, rfl⟩ := List.length_eq_three.mp hlen
  obtain ⟨hplains, hliterals⟩ := book_tokens n b t
  have hne : text ≠ bookTable.select.text.1 := by
    rintro rfl
    have hselect : (lex mysqlTable (bookTable.select.text.1.map Sum.inl)).map plains
        = some bookTable.select.text.1 := rfl
    rw [hlex, Option.map_some, hplains] at hselect
    exact absurd hselect (by decide)
  rw [bookServer]
  dsimp only
  rw [if_neg hne, hlex]
  dsimp only
  rw [if_pos hplains, hliterals]
  exact ⟨rfl, List.map_append⟩

theorem bookServer_select (s : List BookRow) :
    (bookServer.exec s bookTable.select.text.1).2 = .rows (bookRows s) ∧
      HoldsRows (bookRows s) bookTable.kinds (s.map BookRow.bytes) := by
  refine ⟨?_, (List.length_map _).symm, ?_, ?_, ?_⟩
  · rw [bookServer]
    dsimp only
    rw [if_pos rfl]
  · exact .cons ⟨rfl, rfl⟩ (.cons ⟨rfl, rfl⟩ (.cons (Or.inl rfl) .nil))
  · show (bookFields.map MysqlField.name).Nodup
    decide
  · intro i ss hss
    rw [List.getElem?_map] at hss
    obtain ⟨x, hx, rfl⟩ := Option.map_eq_some_iff.mp hss
    refine ⟨x.bytes.map fun b => some ⟨b, []⟩, ?_, ?_⟩
    · show s[i]?.map _ = _
      rw [hx]
      rfl
    · exact .cons ⟨[], rfl, by decide⟩ (.cons ⟨[], rfl, by decide⟩ (.cons ⟨[], rfl, by decide⟩ .nil))

theorem bookServer_keeps : Keeps bookServer bookTable fun s => s.map BookRow.bytes where
  start := rfl
  insert s _ _ hlen _ hlex :=
    let h := bookServer_insert s hlen hlex
    Or.inl ⟨h.1, fun _ => h.2⟩
  select s := Or.inr ⟨bookRows s, bookServer_select s⟩

theorem asksFor_command {p : Platform} {command : MxArray} {q : Query} (args : List MxArray)
    (hchar : command.isChar = true) (hquery : p.mxGetString command = some q.text) :
    AsksFor p (command :: args) 0 q args :=
  ⟨.absent, command, parseId_command args hchar, rfl, hchar, hquery, rfl⟩

/-- A query on a connection that answers leaves the connections alone. -/
theorem AsksFor.serve_c {p : Platform} {prhs args : List MxArray} {i : Slot} {q : Query}
    (h : AsksFor p prhs i q args) (hq : classify q.text = .CMD) {σ : Type} (srv : Server σ)
    (api : ResultApi) (w : World) (nlhs : Nat) {a : Answers} (hping : a.ping = true) :
    (serve srv p api w nlhs prhs a).1.c = w.c := by
  have hanswered : (answered srv p api w nlhs prhs a).ping = true := by
    rw [answered]
    split
    · exact hping
    · exact hping
  show (mym p w nlhs prhs (answered srv p api w nlhs prhs a)).1.c = w.c
  rw [h.mym_eq hq]
  exact cmdBranch_c w i hanswered

theorem plainResultApi_scans : plainResultApi.Scans :=
  ⟨fun _ _ _ hs => congrArg (Option.map (BitVec.ofInt 64)) (scanWhole_numeral hs),
    fun _ _ _ hs => congrArg (Option.map Ieee.ofInt) (scanWhole_numeral hs)⟩

/-- The platform of the samples, with `serializeString`. -/
def bookPlatform : Platform :=
  { runPlatform with outer := stringOrFile 3 (fun _ => 0xFFFD) 0 (fun _ => .undefined) }

/-- The arguments: `int8(-3)`, the sample tree and `a`. -/
def bookArgs : List MxArray := [.full minusThree.array, sampleTree.val, .full letterText.array]

/-- The row they make. -/
def bookContents : List Content := [.bigint (-3), .blob (.value sampleTree.val.norm), .text [97]]

theorem prints_minusThree : PrintsFloor [83] minusThree (-3) where
  selects := ⟨[], Or.inl rfl⟩
  printable := rfl
  toInt := Or.inl rfl
  floor := ⟨_, value_minusThree, (Int.floor_intCast _).symm⟩
  range := by decide

theorem latin_letter : LatinText [97] where
  nonempty := by decide
  noNul := by decide
  length_lt := by decide

theorem book_row : bookTable.MakesRow (fun _ => .undefined) bookArgs bookContents where
  number := rfl
  kinds := rfl
  keepable := .cons (.bigint minusThree prints_minusThree) (.cons (.blob storable_sampleTree)
    (.cons (.text letterText ⟨[], Or.inl rfl⟩ rfl latin_letter) .nil))

theorem book_stored : ∃ ss, storedAll bookPlatform.zlib bookPlatform.ratioTest bookPlatform.outer
    bookTable.ps bookArgs = .ok ss := by
  have hnone : ∀ src, runZlib.compress src ≠ none := by
    intro src h
    rw [runZlib] at h
    dsimp only at h
    split at h <;> cases h
  have hnumber : stored bookPlatform.zlib bookPlatform.ratioTest bookPlatform.outer numberPiece.body
      (.full minusThree.array) = .ok (numeral (-3)) := stored_integer prints_minusThree
  obtain ⟨s, htree⟩ : ∃ s, stored bookPlatform.zlib bookPlatform.ratioTest bookPlatform.outer
      blobPiece.body sampleTree.val = .ok s := storable_sampleTree.stored hnone
  have htext : stored bookPlatform.zlib bookPlatform.ratioTest bookPlatform.outer textPiece.body
      (.full letterText.array) = .ok [97] := rfl
  refine ⟨[numeral (-3), s, [97]], ?_⟩
  show storedAll _ _ _ [numberPiece, blobPiece, textPiece]
    [.full minusThree.array, sampleTree.val, .full letterText.array] = _
  rw [storedAll, hnumber, Outcome.ok_bind, storedAll, htree, Outcome.ok_bind, storedAll, htext]
  rfl

/-- `bigint_to_double` -/
def doubleFlag : MxArray := charArray mlFlagBigintToDouble

/-- The program opens connection 0, inserts the row and selects it with doubles. -/
theorem session_fetch_book : ∃ (w : World) (out : Option Plhs),
    Session bookServer bookPlatform plainResultApi bookTable (fun s => s.map BookRow.bytes)
      (fun _ => .undefined) w [bookContents] ∧
    (serve bookServer bookPlatform plainResultApi w 1
      [charArray bookTable.select.text.1, doubleFlag] (allWell [] 1)).2 = .ok out ∧
    ∃ res f, out = some f ∧ ShowsTable plainResultApi true res f
      [[.double (Ieee.ofInt (-3)), .cell (.value sampleTree.val.norm),
        .cell (.value (.full (charRow ⟨[97], by decide⟩)))]] := by
  have hinsertText : bookPlatform.mxGetString (charArray bookTable.insert.text.1)
      = some bookTable.insert.text := rfl
  have hselectText : bookPlatform.mxGetString (charArray bookTable.select.text.1)
      = some bookTable.select.text := rfl
  have hinsert : AsksFor bookPlatform (charArray bookTable.insert.text.1 :: bookArgs) 0
      bookTable.insert bookArgs := asksFor_command _ rfl hinsertText
  have hselect : AsksFor bookPlatform [charArray bookTable.select.text.1, doubleFlag] 0 bookTable.select
      [doubleFlag] := asksFor_command _ rfl hselectText
  have hflags : ∀ v ∈ [doubleFlag], IsFlagWord bookPlatform.mxGetString v := by
    intro v hv
    rw [List.mem_singleton.mp hv]
    exact ⟨rfl, _, rfl, by decide⟩
  have hlone : ∀ u : Nat, 0 < (fun _ => 0xFFFD : Nat → Nat) u ∧ (fun _ => 0xFFFD : Nat → Nat) u ≤ 0xFFFF :=
    fun _ => ⟨Nat.succ_pos _, by dsimp only; omega⟩
  have hopens : statementOf bookPlatform [charArray openCommand.1] = .ok none := rfl
  have hopened : Session bookServer bookPlatform plainResultApi bookTable (fun s => s.map BookRow.bytes)
      (fun _ => .undefined)
      (serve bookServer bookPlatform plainResultApi World.start 0 [charArray openCommand.1]
        (allWell [] 1)).1 [] := .other .start fun stmt on h => by cases hopens.symm.trans h
  have hopen : ((serve bookServer bookPlatform plainResultApi World.start 0 [charArray openCommand.1]
      (allWell [] 1)).1.c 0).isopen = true := rfl
  generalize (serve bookServer bookPlatform plainResultApi World.start 0 [charArray openCommand.1]
    (allWell [] 1)).1 = w at hopened hopen
  have hstrings : ∀ v ∈ bookArgs, v.isChar = true → ∃ s, bookPlatform.mxGetString v = some s := by
    intro v hv hchar
    rcases List.mem_cons.mp hv with rfl | hv
    · exact ⟨_, rfl⟩
    rcases List.mem_cons.mp hv with rfl | hv
    · exact absurd hchar (by decide)
    · rw [List.mem_singleton.mp hv]
      exact ⟨_, rfl⟩
  obtain ⟨ss, hss⟩ := book_stored
  obtain ⟨stmt, on, hst⟩ := insert_asks rfl hinsert rfl hss hstrings
  have hdone : (bookServer.exec (bookServer.state w.log) stmt).2 = .done := by
    obtain ⟨ss, -, hlen, -, hlex⟩ := insert_text rfl rfl hinsert book_row.fits hst
    exact (bookServer_insert _ hlen hlex).1
  have hok : (serve bookServer bookPlatform plainResultApi w 0
      (charArray bookTable.insert.text.1 :: bookArgs) (allWell [] 1)).2 = .ok none := by
    rw [hinsert.serve_open bookTable.insert_cmd hst bookServer plainResultApi hopen 0 rfl, hdone]
    rfl
  have hinserted := Session.inserted hopened hinsert book_row hok
  have hstill := hinsert.serve_c bookTable.insert_cmd bookServer plainResultApi w 0
    (show (allWell [] 1).ping = true from rfl)
  generalize (serve bookServer bookPlatform plainResultApi w 0
    (charArray bookTable.insert.text.1 :: bookArgs) (allWell [] 1)).1 = w' at hinserted hstill
  have hfetch := hselect.serve_open bookTable.select_cmd (select_text rfl hselect hflags) bookServer
    plainResultApi (hstill ▸ hopen) 1 (show (allWell [] 1).ping = true from rfl)
  have hrows := session_rows bookServer_keeps rfl rfl hlone documentedApi_creates runZlib_inverts rfl rfl
    hinserted
  obtain ⟨hreply, hholds⟩ := bookServer_select (bookServer.state w'.log)
  have htable : tableOf plainResultApi true (bookRows (bookServer.state w'.log)) = .ok _ :=
    rowsFrom_content plainResultApi_scans hholds hrows _ 0 (by rw [Nat.zero_add, hholds.height])
  have hout : ∃ out, (serve bookServer bookPlatform plainResultApi w' 1
      [charArray bookTable.select.text.1, doubleFlag] (allWell [] 1)).2 = .ok out := by
    rw [hfetch, hreply]
    rcases fetchOutput_alike plainResultApi_resolves hholds.names with
      ⟨out, _, hout, -⟩ | ⟨c, -, hc⟩
    · exact ⟨out, hout⟩
    · cases (congrArg Outcome.stop htable).symm.trans hc
  obtain ⟨out, hout⟩ := hout
  exact ⟨w', out, hinserted, hout, session_fetch bookServer_keeps rfl rfl hlone documentedApi_creates
    runZlib_inverts rfl rfl plainResultApi_resolves plainResultApi_scans hinserted hselect hflags hout⟩

end Mym
