import Mym.Connection
import Mym.Statement

/-!
# Whitespace in front of a query

Two runs of the query branch, on a query and on the same query with whitespace in front of it.
The placeholders are filled alike (`newQuery_append`), and then `removeWhiteSpaceAtTheBeginning`
frees the longer query instead of replacing it, so the two runs agree only where there is nothing
to remove (`immaterial_iff`).
-/

namespace Mym

/-- What the caller reads after the call. -/
def trimmed (s : CStr) : Result Bytes := do
  let h := Heap.empty.alloc (s.1 ++ [0])
  let query := h.2
  let h ← removeWhiteSpaceAtTheBeginning h.1 query
  let mem ← h.load query
  let s ← readCStr mem 0
  .ok s.1

/-- Nothing is left to read of a query that begins with whitespace. -/
theorem trimmed_eq (s : CStr) :
    trimmed s = if s.1.head?.any isspace = true then .undefined else .ok s.1 := by
  have hload := Heap.load_alloc (ε := MexError) Heap.empty (s.1 ++ [0])
  have hs : readCStr (ε := MexError) (s.1 ++ [0]) 0 = .ok s := readCStr_of_at (at_self _)
  rw [trimmed]
  by_cases hhead : s.1.head?.any isspace = true
  · obtain ⟨h', hfree, hdead⟩ := removeWhiteSpaceAtTheBeginning_freed hload hs hhead
    rw [hfree, Outcome.ok_bind, hdead, if_pos hhead]
    rfl
  · rw [removeWhiteSpaceAtTheBeginning_kept hload hs hhead, Outcome.ok_bind, hload,
      Outcome.ok_bind, hs, Outcome.ok_bind, if_neg hhead]

theorem dropWhile_eq_self {s : Bytes} (h : ¬s.head?.any isspace = true) :
    s.dropWhile isspace = s := by
  cases s with
  | nil => rfl
  | cons c s => exact List.dropWhile_cons_of_neg h

/-! ### Pieces behind more text -/

/-- The pieces of a query with `w` in front of it. -/
def prepend (w : Bytes) : Pieces → Bytes → Pieces × Bytes
  | [], tail => ([], w ++ tail)
  | p :: ps, tail => (⟨w ++ p.before, p.body⟩ :: ps, tail)

theorem joined_prepend (w : Bytes) (ps : Pieces) (tail : Bytes) :
    joined phOpen phClose (prepend w ps tail).1 ++ (prepend w ps tail).2
      = w ++ (joined phOpen phClose ps ++ tail) := by
  cases ps with
  | nil => rfl
  | cons p ps => simp [prepend, joined_cons, Piece.text]

theorem bodies_prepend (w : Bytes) (ps : Pieces) (tail : Bytes) :
    (prepend w ps tail).1.map Piece.body = ps.map Piece.body := by
  cases ps with
  | nil => rfl
  | cons p ps => rfl

theorem length_prepend (w : Bytes) (ps : Pieces) (tail : Bytes) :
    (prepend w ps tail).1.length = ps.length := by
  cases ps with
  | nil => rfl
  | cons p ps => rfl

theorem leftmost_prepend {w : Bytes} (hw : phOpen ∉ w) {ps : Pieces}
    (h : Leftmost phOpen phClose ps) (tail : Bytes) :
    Leftmost phOpen phClose (prepend w ps tail).1 := by
  cases ps with
  | nil => exact h
  | cons p ps =>
    intro x hx
    rcases List.mem_cons.mp hx with rfl | hx
    · refine ⟨fun hmem => ?_, (h p List.mem_cons_self).2⟩
      exact (List.mem_append.mp hmem).elim hw (h p List.mem_cons_self).1
    · exact h x (List.mem_cons_of_mem p hx)

theorem prepend_tail {w : Bytes} {c : UInt8} (hw : c ∉ w) (ps : Pieces) {tail : Bytes} (h : c ∉ tail) :
    c ∉ (prepend w ps tail).2 := by
  cases ps with
  | nil => exact fun hmem => (List.mem_append.mp hmem).elim hw h
  | cons p ps => exact h

theorem Cut.prepend {w q : Bytes} (hw : phOpen ∉ w) {n : Nat} {ps : Pieces} {tail : Bytes}
    (h : Cut q n ps tail) : Cut (w ++ q) n (prepend w ps tail).1 (prepend w ps tail).2 where
  query := by rw [joined_prepend, h.query]
  leftmost := leftmost_prepend hw h.leftmost tail
  le := by rw [length_prepend]; exact h.le
  last hlt := prepend_tail hw ps (h.last (by rwa [length_prepend] at hlt))

theorem Unclosed.prepend {w q : Bytes} (hw : phOpen ∉ w) {n : Nat} (h : Unclosed q n) :
    Unclosed (w ++ q) n := by
  obtain ⟨ps, t, u, hq, hps, hlt, ht, hu⟩ := h
  have hjoined := joined_prepend w ps t
  refine ⟨(Mym.prepend w ps t).1, (Mym.prepend w ps t).2, u, ?_, leftmost_prepend hw hps t, ?_,
    prepend_tail hw ps ht, hu⟩
  · rw [← List.append_assoc, hjoined, hq]
    simp
  · rw [length_prepend]
    exact hlt

theorem splice_prepend (escape : Bytes → Bytes) (w : Bytes) {ps : Pieces} (tail : Bytes)
    {ss : List Bytes} (hlen : ss.length = ps.length) :
    splice escape (prepend w ps tail).1 ss ++ (prepend w ps tail).2
      = w ++ (splice escape ps ss ++ tail) := by
  cases ps with
  | nil =>
    rw [List.length_eq_zero_iff.mp hlen]
    rfl
  | cons p ps =>
    cases ss with
    | nil => cases hlen
    | cons s ss => simp [prepend, splice_cons]

/-! ### Two runs -/

section

variable {zlib : Zlib} {ratioTest : (plen len : Nat) → Bool}
  {outer : CStr → Serializer → MxArray → Result Serial} {escape : Bytes → Bytes}
  {mxGetString : MxArray → Option CStr}

variable (zlib ratioTest outer mxGetString) in
/-- **The placeholders of the longer query are filled alike.** -/
theorem newQuery_append (hesc : Escapes escape) {w : Bytes} (hw : phOpen ∉ w) {q qw : Query}
    (hqw : qw.text.1 = w ++ q.text.1) (args : List MxArray) :
    newQuery zlib ratioTest outer escape mxGetString qw args
      = newQuery zlib ratioTest outer escape mxGetString q args >>= fun m =>
        .ok (textOf (w ++ m.1)) := by
  rcases scan_spec q.text.2 args.length with ⟨-, hopen⟩ | ⟨ps, tail, s, -, hend⟩
  · have hopen' : Unclosed qw.text.1 args.length := by
      rw [hqw]
      exact hopen.prepend hw
    rw [newQuery, newQuery, processPlaceholders_unclosed hopen,
      processPlaceholders_unclosed hopen', Outcome.bind_assoc, Outcome.bind_assoc,
      Outcome.bind_assoc]
    rfl
  have hcut : Cut qw.text.1 args.length (prepend w ps tail).1 (prepend w ps tail).2 := by
    rw [hqw]
    exact hend.toCut.prepend hw
  rw [newQuery_of_cut hesc qw args hcut, newQuery_of_cut hesc q args hend.toCut, length_prepend,
    Outcome.bind_assoc]
  apply Outcome.bind_congr
  intro nb _
  rw [Outcome.bind_assoc]
  apply Outcome.bind_congr
  intro nb _
  rw [fieldsOf_bind _ args (bodies_prepend w ps tail) 0 0, Outcome.bind_assoc]
  apply Outcome.bind_congr
  intro fs _
  rw [storedAll_congr args (bodies_prepend w ps tail), Outcome.bind_assoc]
  apply Outcome.bind_congr
  intro ss hss
  rw [Outcome.ok_bind, hend.toCut.textOf_splice hesc,
    splice_prepend escape w tail (storedAll_length hend.le hss)]

variable (zlib ratioTest outer escape mxGetString) in
/-- The query `qw`, which is `q` behind whitespace, is treated as `q` is: what the caller goes on with
is the new query without the whitespace at its beginning, and the same text is sent. -/
def Immaterial (q qw : Query) (args : List MxArray) : Prop :=
  (newQuery zlib ratioTest outer escape mxGetString qw args >>= trimmed)
      = (newQuery zlib ratioTest outer escape mxGetString q args >>= fun m =>
        .ok (m.1.dropWhile isspace)) ∧
    statementText zlib ratioTest outer escape mxGetString qw args
      = statementText zlib ratioTest outer escape mxGetString q args

/-- **When whitespace in front of a query is immaterial:** if the query is turned down before, or if
there is none. -/
theorem immaterial_iff (hesc : Escapes escape) {w : Bytes} (hw : ∀ c ∈ w, isspace c = true)
    {q qw : Query} (hqw : qw.text.1 = w ++ q.text.1) (args : List MxArray) :
    Immaterial zlib ratioTest outer escape mxGetString q qw args ↔
      ∀ m, newQuery zlib ratioTest outer escape mxGetString q args = .ok m →
        w = [] ∧ ¬m.1.head?.any isspace = true := by
  have hopen : phOpen ∉ w := fun hmem => absurd (hw phOpen hmem) (by decide)
  have htext : ∀ m : CStr, (textOf (w ++ m.1)).1 = w ++ m.1 := fun m => textOf_eq fun hmem =>
    (List.mem_append.mp hmem).elim (fun h => absurd (hw 0 h) (by decide)) m.2
  have happend := newQuery_append zlib ratioTest outer mxGetString hesc hopen hqw args
  rw [Immaterial, statementText_newQuery, statementText_newQuery, happend, Outcome.bind_assoc,
    Outcome.bind_assoc]
  refine ⟨?_, ?_⟩
  · rintro ⟨hlive, -⟩ m hm
    rw [hm, Outcome.ok_bind, Outcome.ok_bind, Outcome.ok_bind, trimmed_eq, htext] at hlive
    cases w with
    | nil =>
      refine ⟨rfl, fun hspace => ?_⟩
      rw [List.nil_append, if_pos hspace] at hlive
      cases hlive
    | cons c w =>
      have hspace : (c :: w ++ m.1).head?.any isspace = true := hw c List.mem_cons_self
      rw [if_pos hspace] at hlive
      cases hlive
  · intro h
    refine ⟨Outcome.bind_congr fun m hm => ?_, Outcome.bind_congr fun m hm => ?_⟩
    · obtain ⟨rfl, hspace⟩ := h m hm
      rw [Outcome.ok_bind, trimmed_eq, htext, List.nil_append, if_neg hspace,
        dropWhile_eq_self hspace]
    · obtain ⟨rfl, -⟩ := h m hm
      rw [Outcome.ok_bind, htext, List.nil_append]

end

/-- `SELECT {` -/
def openQuery : Query where
  text := ⟨[83, 69, 76, 69, 67, 84, 32, 123], by decide⟩
  length_lt := by decide

/-- The same behind a tab and a blank. -/
def blankOpen : Query where
  text := ⟨[9, 32] ++ openQuery.text.1, by decide⟩
  length_lt := by decide

/-- A query that is turned down is turned down. -/
theorem openQuery_immaterial :
    Immaterial runZlib (fun _ _ => true) (fun _ _ _ => .undefined) mysqlEscape (fun _ => none)
      openQuery blankOpen [quoteArray] := by
  have hspace : ∀ c ∈ ([9, 32] : Bytes), isspace c = true := List.all_eq_true.mp (by decide)
  apply (immaterial_iff mysqlEscape_escapes hspace rfl _).mpr
  intro m hm
  have hrun : newQuery runZlib (fun _ _ => true) (fun _ _ _ => .undefined) mysqlEscape
      (fun _ => none) openQuery [quoteArray] = .raised .placeholdersNotClosed := rfl
  rw [hrun] at hm
  cases hm

/-- `SELECT 1` -/
def selectQuery : Query where
  text := select
  length_lt := by decide

/-- The same behind a blank. -/
def blankSelect : Query where
  text := ⟨32 :: selectQuery.text.1, by decide⟩
  length_lt := by decide

/-- **A blank in front of a query makes it go away.** -/
theorem blankSelect_freed :
    statementText runZlib (fun _ _ => true) (fun _ _ _ => .undefined) mysqlEscape (fun _ => none)
      selectQuery [] = .ok selectQuery.text.1 ∧
    statementText runZlib (fun _ _ => true) (fun _ _ _ => .undefined) mysqlEscape (fun _ => none)
      blankSelect [] = .undefined ∧
    ¬Immaterial runZlib (fun _ _ => true) (fun _ _ _ => .undefined) mysqlEscape (fun _ => none)
      selectQuery blankSelect [] := by
  have hselect : statementText runZlib (fun _ _ => true) (fun _ _ _ => .undefined) mysqlEscape
      (fun _ => none) selectQuery [] = .ok selectQuery.text.1 := rfl
  have hblank : statementText runZlib (fun _ _ => true) (fun _ _ _ => .undefined) mysqlEscape
      (fun _ => none) blankSelect [] = .undefined := rfl
  refine ⟨hselect, hblank, fun h => ?_⟩
  have hsame := h.2
  rw [hselect, hblank] at hsame
  cases hsame

end Mym
