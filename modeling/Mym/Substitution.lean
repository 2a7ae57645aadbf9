import Mym.Placeholder

/-!
# Substitution is exact

The new query is the old one with the first placeholders replaced, each by the escaped bytes
of its argument, and with everything else copied (`Substituted`).  The scan keeps the
pieces it has cut off, `Scanned`: the tables hold the places of their braces, and the entry
in front is the next opening brace.  Reading the types ends each piece with a NUL, which
makes the text behind the letter a string of its own; and the copy loop appends to what it
has copied a piece at a time.
-/

namespace Mym

/-! ### The scan -/

/-- The placeholders that have been cut off a query. -/
abbrev Pieces := List (Piece UInt8)

theorem strstr_eq {a rest : Bytes} (h0 : (0 : UInt8) ∉ rest) {p : Nat} (hp : p = a.length)
    (c : UInt8) :
    strstr (a ++ rest ++ [0]) p c = .ok ((rest.idxOf? c).map (p + ·)) := by
  subst hp
  have hat : At (a ++ rest ++ [0]) a.length (rest ++ [0]) := by
    unfold At
    rw [List.append_assoc, List.drop_left]
  rw [strstr, readCStr_of_at (s := ⟨rest, h0⟩) hat]
  rfl

/-- The scan has cut off the pieces `ps`, and `n` more may follow. -/
structure Scanned (q : Bytes) (ps : Pieces) (rest : Bytes) (n : Nat) (s : Scan) : Prop where
  query : q = joined phOpen phClose ps ++ rest
  leftmost : Leftmost phOpen phClose ps
  po : s.po = (places 0 ps).map (fun x => some x.1) ++
    (rest.idxOf? phOpen).map (span ps + ·) :: List.replicate n none
  pc : s.pc = (places 0 ps).map (fun x => some x.2) ++ List.replicate (n + 1) none
  nac : s.nac = ps.length + 1

/-- The query cut at its first placeholders.  They are `expected` in number, or fewer if there are
no more. -/
structure Cut (q : Bytes) (expected : Nat) (ps : Pieces) (rest : Bytes) : Prop where
  query : q = joined phOpen phClose ps ++ rest
  leftmost : Leftmost phOpen phClose ps
  le : ps.length ≤ expected
  last : ps.length < expected → phOpen ∉ rest

/-- How the scan ends. -/
structure ScanEnd (q : Bytes) (expected : Nat) (ps : Pieces) (rest : Bytes) (s : Scan) : Prop
    extends Cut q expected ps rest where
  po : (places 0 ps).map (fun x => some x.1) <+: s.po
  pc : (places 0 ps).map (fun x => some x.2) <+: s.pc
  nac : s.nac = ps.length + 1

/-- There is an opening brace that is not closed where the scan gets to it. -/
def Unclosed (q : Bytes) (expected : Nat) : Prop :=
  ∃ ps t u, q = joined phOpen phClose ps ++ (t ++ phOpen :: u) ∧ Leftmost phOpen phClose ps ∧
    ps.length < expected ∧ phOpen ∉ t ∧ phClose ∉ u

/-- The cut of a query is one cut. -/
theorem Cut.unique {q : Bytes} {expected : Nat} {ps ps' : Pieces} {rest rest' : Bytes}
    (h : Cut q expected ps rest) (h' : Cut q expected ps' rest') : ps = ps' ∧ rest = rest' :=
  leftmost_unique h.leftmost h'.leftmost (h.query.symm.trans h'.query) h.le h'.le h.last h'.last

/-- A query that can be cut is closed. -/
theorem Cut.not_unclosed {q : Bytes} {expected : Nat} {ps : Pieces} {rest : Bytes}
    (h : Cut q expected ps rest) : ¬Unclosed q expected := by
  rintro ⟨qs, t, u, hq, hqs, hlt, ht, hu⟩
  have hcut : joined phOpen phClose (ps.take qs.length) ++
      (joined phOpen phClose (ps.drop qs.length) ++ rest)
      = joined phOpen phClose qs ++ (t ++ phOpen :: u) := by
    rw [← List.append_assoc, ← joined_append, List.take_append_drop, ← h.query, hq]
  have hleft : Leftmost phOpen phClose (ps.take qs.length) := fun p hp =>
    h.leftmost p (List.mem_of_mem_take hp)
  have hnil : ps.length ≤ qs.length →
      phOpen ∉ joined phOpen phClose (ps.drop qs.length) ++ rest := by
    intro hle
    rw [List.drop_eq_nil_of_le hle]
    exact h.last (Nat.lt_of_le_of_lt hle hlt)
  have hshort : (ps.take qs.length).length < qs.length → ps.length ≤ qs.length := by
    intro hlt
    rw [List.length_take] at hlt
    omega
  obtain ⟨-, hrest⟩ := leftmost_unique hleft hqs hcut (List.length_take_le _ _) (Nat.le_refl _)
    (fun hlt => hnil (hshort hlt)) (fun hlt => absurd hlt (Nat.lt_irrefl _))
  cases hdrop : ps.drop qs.length with
  | nil =>
    refine hnil (List.drop_eq_nil_iff.mp hdrop) ?_
    rw [hrest]
    simp
  | cons p ps' =>
    have hp := h.leftmost p (List.mem_of_mem_drop (by rw [hdrop]; exact List.mem_cons_self))
    rw [hdrop, joined_cons, Piece.text, List.append_assoc, List.append_assoc, List.cons_append]
      at hrest
    obtain ⟨-, hu'⟩ := append_cons_inj hp.1 ht hrest
    refine hu ?_
    rw [← hu']
    simp

theorem Scanned.end {q : Bytes} {ps : Pieces} {rest : Bytes} {n : Nat} {s : Scan}
    (h : Scanned q ps rest n s) (hlast : n ≠ 0 → phOpen ∉ rest) :
    ScanEnd q (ps.length + n) ps rest s where
  query := h.query
  leftmost := h.leftmost
  le := Nat.le_add_right _ _
  last hlt := hlast (by omega)
  po := by
    rw [h.po]
    exact List.prefix_append _ _
  pc := by
    rw [h.pc]
    exact List.prefix_append _ _
  nac := h.nac

/-- One more piece. -/
theorem Scanned.next {q : Bytes} {ps : Pieces} {p : Piece UInt8} {v : Bytes} {n : Nat} {s : Scan}
    (h : Scanned q ps (p.text phOpen phClose ++ v) (n + 1) s) (ht : phOpen ∉ p.before)
    (hb : phClose ∉ p.body) : Scanned q (ps ++ [p]) v n
      ⟨((places 0 ps).map (fun x => some x.1) ++ [some (span ps + p.before.length)]) ++
          (v.idxOf? phOpen).map (span ps + p.size + ·) :: List.replicate n none,
        (places 0 ps).map (fun x => some x.2) ++
          some (span ps + p.before.length + 1 + p.body.length) :: List.replicate (n + 1) none,
        s.nac + 1⟩ where
  query := by rw [h.query, joined_snoc, List.append_assoc]
  leftmost := h.leftmost.snoc ⟨ht, hb⟩
  po := by
    rw [places_snoc, List.map_append, span_snoc, Nat.zero_add]
    rfl
  pc := by
    rw [places_snoc, List.map_append, Nat.zero_add]
    simp
  nac := by rw [h.nac, List.length_append, List.length_singleton]

theorem scanLoop_spec {q : Bytes} (h0 : (0 : UInt8) ∉ q) {n : Nat} {ps : Pieces} {rest : Bytes}
    {s : Scan} (h : Scanned q ps rest n s) :
    (scanLoop (q ++ [0]) (ps.length + n) (n + 1) s = .raised .placeholdersNotClosed ∧
      Unclosed q (ps.length + n)) ∨
      ∃ ps' rest' s', scanLoop (q ++ [0]) (ps.length + n) (n + 1) s = .ok s' ∧
        ScanEnd q (ps.length + n) ps' rest' s' := by
  induction n generalizing ps rest s with
  | zero =>
    refine Or.inr ⟨ps, rest, s, ?_, h.end fun hne => absurd rfl hne⟩
    rw [scanLoop, h.po, readEntry_append (by rw [h.nac]; simp), Outcome.ok_bind]
    cases rest.idxOf? phOpen with
    | none => rfl
    | some t => exact if_neg (by rw [h.nac]; omega)
  | succ n ih =>
    rw [scanLoop, h.po, readEntry_append (by rw [h.nac]; simp), Outcome.ok_bind]
    rcases idxOf?_cases phOpen rest with ⟨hnone, hidx⟩ | ⟨t, u, rfl, ht, hidx⟩
    · rw [hidx]
      exact Or.inr ⟨ps, rest, s, rfl, h.end fun _ => hnone⟩
    have hnac : s.nac ≤ ps.length + (n + 1) := by
      rw [h.nac]
      omega
    rw [hidx]
    dsimp only [Option.map_some]
    rw [if_pos hnac]
    have hq : q = joined phOpen phClose ps ++ t ++ [phOpen] ++ u := by
      rw [h.query]
      simp
    have hclose : strstr (q ++ [0]) (span ps + t.length + 1) phClose
        = .ok ((u.idxOf? phClose).map (span ps + t.length + 1 + ·)) := by
      rw [hq]
      refine strstr_eq (fun hmem => h0 ?_) (by simp [Nat.add_assoc]) phClose
      rw [hq]
      exact List.mem_append_right _ hmem
    rw [hclose, Outcome.ok_bind, h.pc, List.replicate_succ, writeEntry_append (by rw [h.nac]; simp),
      Outcome.ok_bind]
    rcases idxOf?_cases phClose u with ⟨hu, hidx⟩ | ⟨b, v, rfl, hb, hidx⟩
    · rw [hidx]
      refine Or.inl ⟨rfl, ps, t, u, h.query, h.leftmost, ?_, ht, hu⟩
      omega
    rw [hidx]
    dsimp only [Option.map_some]
    have htext : t ++ phOpen :: (b ++ phClose :: v) = (⟨t, b⟩ : Piece UInt8).text phOpen phClose ++ v := by
      simp [Piece.text]
    rw [htext] at h
    have hnext := h.next ht hb
    have hopen : strstr (q ++ [0]) (span ps + t.length + 1 + b.length + 1) phOpen
        = .ok ((v.idxOf? phOpen).map (span ps + (⟨t, b⟩ : Piece UInt8).size + ·)) := by
      have hpos : span ps + t.length + 1 + b.length + 1 = span ps + (⟨t, b⟩ : Piece UInt8).size := by
        show _ = span ps + (t.length + b.length + 2)
        omega
      rw [hpos, hnext.query]
      refine strstr_eq (fun hmem => h0 ?_) (by rw [length_joined, span_snoc]) phOpen
      rw [hnext.query]
      exact List.mem_append_right _ hmem
    rw [hopen, Outcome.ok_bind]
    have hset := writeEntry_append (ε := MexError) (i := s.nac) (r := List.replicate n none)
      (l := (places 0 ps).map (fun x => some x.1) ++ [some (span ps + t.length)]) (a := none)
      (b := (v.idxOf? phOpen).map (span ps + (⟨t, b⟩ : Piece UInt8).size + ·))
      (by rw [h.nac]; simp)
    rw [List.append_assoc, List.singleton_append] at hset
    rw [List.replicate_succ, hset, Outcome.ok_bind]
    have hlen : (ps ++ [(⟨t, b⟩ : Piece UInt8)]).length + n = ps.length + (n + 1) := by
      rw [List.length_append, List.length_singleton]
      omega
    have hnext := ih hnext
    rw [hlen] at hnext
    exact hnext

/-- The scan ends with an error, or with the first pieces in its tables. -/
theorem scan_spec {q : Bytes} (h0 : (0 : UInt8) ∉ q) (expected : Nat) :
    (scan (q ++ [0]) expected = .raised .placeholdersNotClosed ∧ Unclosed q expected) ∨
      ∃ ps rest s, scan (q ++ [0]) expected = .ok { s with nac := ps.length } ∧
        ScanEnd q expected ps rest s := by
  have hopen : strstr (q ++ [0]) 0 phOpen = .ok ((q.idxOf? phOpen).map (0 + ·)) :=
    strstr_eq (a := []) h0 rfl phOpen
  have hstart : Scanned q [] q expected
      ⟨(q.idxOf? phOpen).map (0 + ·) :: List.replicate expected none,
        List.replicate (expected + 1) none, 1⟩ :=
    ⟨rfl, leftmost_nil _ _, rfl, rfl, rfl⟩
  have hwrite := writeEntry_append (ε := MexError) (i := 0) (l := []) (a := none)
    (r := List.replicate expected none) (b := (q.idxOf? phOpen).map (0 + ·)) rfl
  have hscan : scan (q ++ [0]) expected
      = scanLoop (q ++ [0]) expected (expected + 1)
          ⟨(q.idxOf? phOpen).map (0 + ·) :: List.replicate expected none,
            List.replicate (expected + 1) none, 1⟩ >>= fun s => .ok { s with nac := s.nac - 1 } := by
    rw [scan, hopen, Outcome.ok_bind, List.replicate_succ]
    rw [List.nil_append, List.nil_append] at hwrite
    rw [hwrite, Outcome.ok_bind]
  have hloop := scanLoop_spec h0 hstart
  rw [List.length_nil, Nat.zero_add] at hloop
  rw [hscan]
  rcases hloop with ⟨hraised, hopen⟩ | ⟨ps, rest, s, hok, hend⟩
  · rw [hraised]
    exact Or.inl ⟨rfl, hopen⟩
  · rw [hok, Outcome.ok_bind, hend.nac]
    exact Or.inr ⟨ps, rest, s, rfl, hend⟩

theorem entries_spec {s : Scan} {l r : Pieces}
    (hpo : (places 0 (l ++ r)).map (fun x => some x.1) <+: s.po)
    (hpc : (places 0 (l ++ r)).map (fun x => some x.2) <+: s.pc) {vs : List MxArray}
    (hv : r.length ≤ vs.length) :
    entries s l.length r.length vs = .ok ((places (span l) r).zip vs) := by
  induction r generalizing l vs with
  | nil => rfl
  | cons p r ih =>
    cases vs with
    | nil => cases hv
    | cons v vs =>
      have happend : l ++ p :: r = l ++ [p] ++ r := by simp
      have hlen : (l ++ [p]).length = l.length + 1 := by simp
      rw [happend] at hpo hpc
      have hrest := ih hpo hpc (Nat.le_of_succ_le_succ hv)
      rw [hlen, span_snoc] at hrest
      rw [← happend, places_append, places, List.map_append, List.map_cons, Nat.zero_add] at hpo hpc
      obtain ⟨po, hpo⟩ := hpo
      obtain ⟨pc, hpc⟩ := hpc
      rw [List.append_assoc, List.cons_append] at hpo hpc
      rw [List.length_cons, entries, ← hpo, readEntry_append (by simp), Outcome.ok_bind, ← hpc,
        readEntry_append (by simp), Outcome.ok_bind]
      dsimp only
      rw [hrest]
      rfl

/-! ### The types -/

/-- `getSerialFct` looks at no more than the text between the braces. -/
theorem getSerialFct_body (body t : Bytes) (v : MxArray) :
    getSerialFct (body ++ phClose :: t) v = getSerialFct body v := by
  cases body with
  | nil => rfl
  | cons c body =>
    cases body with
    | nil =>
      unfold getSerialFct
      by_cases hc : c = preNoCompression
      · subst hc
        rfl
      · simp [hc]
    | cons d body =>
      unfold getSerialFct
      by_cases hc : c = preNoCompression
      · simp [hc]
      · simp [hc]

theorem getSerialFct_nil (v : MxArray) : getSerialFct [] v = .raised .unknownPlaceholder := rfl

theorem getSerialFct_cases (body : Bytes) (v : MxArray) :
    (∃ e, getSerialFct body v = .raised e) ∨ ∃ f, getSerialFct body v = .ok f := by
  cases h : getSerialFct body v with
  | ok f => exact Or.inr ⟨f, rfl⟩
  | raised e => exact Or.inl ⟨e, rfl⟩
  | _ =>
    unfold getSerialFct at h
    dsimp only at h
    split_ifs at h
    all_goals cases v <;> cases h

/-- The fields of the placeholders `ps` from position `b` on. -/
def fieldsOf : Nat → Pieces → List MxArray → Result (List Field)
  | b, p :: ps, v :: vs => do
    let f ← getSerialFct p.body v
    let fs ← fieldsOf (b + p.size) ps vs
    .ok (⟨b + p.before.length, (p.body.length + 2) % 2 ^ 32, b + p.before.length + 2, f.1, f.2, v⟩
      :: fs)
  | _, _, _ => .ok []

theorem fieldsOf_cases (b : Nat) (ps : Pieces) (vs : List MxArray) :
    (∃ e, fieldsOf b ps vs = .raised e) ∨ ∃ fs, fieldsOf b ps vs = .ok fs := by
  induction ps generalizing b vs with
  | nil => exact Or.inr ⟨[], rfl⟩
  | cons p ps ih =>
    cases vs with
    | nil => exact Or.inr ⟨[], rfl⟩
    | cons v vs =>
      rw [fieldsOf]
      rcases getSerialFct_cases p.body v with ⟨e, he⟩ | ⟨f, hf⟩
      · rw [he]
        exact Or.inl ⟨e, rfl⟩
      rw [hf, Outcome.ok_bind]
      rcases ih (b + p.size) vs with ⟨e, he⟩ | ⟨fs, hfs⟩
      · rw [he]
        exact Or.inl ⟨e, rfl⟩
      · rw [hfs]
        exact Or.inr ⟨_, rfl⟩

/-- Every placeholder that has been read ends with a NUL. -/
theorem readTypes_spec {l r : Pieces} {t : Bytes} {vs : List MxArray} (hv : r.length ≤ vs.length) :
    readTypes (joined phOpen 0 l ++ (joined phOpen phClose r ++ t)) ((places (span l) r).zip vs)
      = fieldsOf (span l) r vs >>= fun fs => .ok (joined phOpen 0 (l ++ r) ++ t, fs) := by
  induction r generalizing l vs with
  | nil =>
    cases vs with
    | nil => rw [List.append_nil]; rfl
    | cons v vs => rw [List.append_nil]; rfl
  | cons p r ih =>
    cases vs with
    | nil => cases hv
    | cons v vs =>
      have hmem : joined phOpen 0 l ++ (joined phOpen phClose (p :: r) ++ t)
          = (joined phOpen 0 l ++ p.before ++ [phOpen]) ++
            (p.body ++ phClose :: (joined phOpen phClose r ++ t)) := by
        simp [joined_cons, Piece.text]
      have hdrop : (joined phOpen 0 l ++ (joined phOpen phClose (p :: r) ++ t)).drop
          (span l + p.before.length + 1) = p.body ++ phClose :: (joined phOpen phClose r ++ t) := by
        rw [hmem]
        exact List.drop_left' (by simp [Nat.add_assoc])
      have hwrite : writeBytes (ε := MexError) (joined phOpen 0 l ++ (joined phOpen phClose (p :: r) ++ t))
          (span l + p.before.length + 1 + p.body.length) [0]
          = .ok (joined phOpen 0 (l ++ [p]) ++ (joined phOpen phClose r ++ t)) := by
        rw [hmem, ← List.append_assoc, writeBytes_append (by simp; omega) (by simp), joined_snoc]
        simp [Piece.text]
      have hrest := ih (l := l ++ [p]) (Nat.le_of_succ_le_succ hv)
      rw [span_snoc, List.append_assoc, List.singleton_append] at hrest
      have hsize : span l + p.before.length + 1 + p.body.length - (span l + p.before.length) + 1
          = p.body.length + 2 := by
        omega
      rw [places, List.zip_cons_cons, readTypes, hdrop, getSerialFct_body, fieldsOf, hsize]
      cases getSerialFct p.body v with
      | ok f =>
        rw [Outcome.ok_bind, Outcome.ok_bind, hwrite, Outcome.ok_bind, hrest, Outcome.bind_assoc,
          Outcome.bind_assoc]
        rfl
      | _ => rfl

/-! ### The stored bytes -/

/-- The string that begins with `bs`. -/
def textOf (bs : Bytes) : CStr :=
  ⟨bs.takeWhile (· ≠ 0), fun h => by simpa using List.mem_takeWhile_imp h⟩

theorem textOf_eq {bs : Bytes} (h : (0 : UInt8) ∉ bs) : (textOf bs).1 = bs := by
  apply List.takeWhile_eq_self_iff.mpr
  intro b hb
  simp only [decide_eq_true_eq]
  rintro rfl
  exact h hb

section

variable (zlib : Zlib) (ratioTest : (plen len : Nat) → Bool)
  (outer : CStr → Serializer → MxArray → Result Serial) (escape : Bytes → Bytes)

/-- What is stored for the argument `v` of a placeholder with the text `body`. -/
def stored (body : Bytes) (v : MxArray) : Result Bytes := do
  let f ← getSerialFct body v
  let s ← f.1.run (outer (textOf body.tail)) v
  let pd ← readBytes s.bytes 0 s.rnBytes
  compressField zlib ratioTest f.2 pd.1

def storedAll : Pieces → List MxArray → Result (List Bytes)
  | p :: ps, v :: vs => do
    let s ← stored zlib ratioTest outer p.body v
    let ss ← storedAll ps vs
    .ok (s :: ss)
  | _, _ => .ok []

/-- The text in front of each placeholder, and the escaped bytes that replace it. -/
def splice (ps : Pieces) (ss : List Bytes) : Bytes :=
  (List.zipWith (fun p s => p.before ++ escape s) ps ss).flatten

end

section

variable {zlib : Zlib} {ratioTest : (plen len : Nat) → Bool}
  {outer : CStr → Serializer → MxArray → Result Serial} {escape : Bytes → Bytes}

/-- The text behind the letter is a string of its own. -/
theorem serializeField_spec {mem : Bytes} {p : Piece UInt8} {a t : Bytes} {o ps : Nat}
    (hmem : mem = a ++ (p.text phOpen 0 ++ t)) (h0 : (0 : UInt8) ∉ p.body)
    (ho : o = a.length + p.before.length) {v : MxArray} {f : Serializer × Bool}
    (hf : getSerialFct p.body v = .ok f) :
    serializeField zlib ratioTest outer mem ⟨o, ps, o + 2, f.1, f.2, v⟩
      = stored zlib ratioTest outer p.body v := by
  obtain ⟨c, body, hbody⟩ : ∃ c body, p.body = c :: body := by
    cases hb : p.body with
    | nil =>
      rw [hb, getSerialFct_nil] at hf
      cases hf
    | cons c body => exact ⟨c, body, rfl⟩
  have htext : (textOf p.body.tail).1 = body := by
    rw [hbody]
    refine textOf_eq fun hmem => h0 ?_
    rw [hbody]
    exact List.mem_cons_of_mem c hmem
  have hat : At mem (o + 2) ((textOf p.body.tail).1 ++ [0]) := by
    have hsplit : mem = (a ++ p.before ++ [phOpen, c]) ++ (body ++ [0]) ++ t := by
      rw [hmem, Piece.text, hbody]
      simp
    have hpos : o + 2 = (a ++ p.before ++ [phOpen, c]).length := by
      rw [ho]
      simp [Nat.add_assoc]
    rw [htext, hpos, hsplit]
    exact at_middle _ _ _
  rw [serializeField, readCStr_of_at hat, Outcome.ok_bind, stored, hf, Outcome.ok_bind]

theorem serializeFields_spec {l r : Pieces} {t : Bytes} (h0 : ∀ p ∈ r, (0 : UInt8) ∉ p.body)
    {vs : List MxArray} {fs : List Field} (hfs : fieldsOf (span l) r vs = .ok fs) :
    serializeFields zlib ratioTest outer (joined phOpen 0 l ++ (joined phOpen 0 r ++ t)) fs
      = storedAll zlib ratioTest outer r vs := by
  induction r generalizing l vs fs with
  | nil =>
    cases hfs
    rfl
  | cons p r ih =>
    cases vs with
    | nil =>
      cases hfs
      rfl
    | cons v vs =>
      obtain ⟨f, hf, hfs⟩ := Outcome.bind_eq_ok hfs
      obtain ⟨fs', hfs', hfs⟩ := Outcome.bind_eq_ok hfs
      cases hfs
      have hmem : joined phOpen 0 l ++ (joined phOpen 0 (p :: r) ++ t)
          = joined phOpen 0 l ++ (p.text phOpen 0 ++ (joined phOpen 0 r ++ t)) := by
        rw [joined_cons, List.append_assoc]
      have hmem' : joined phOpen 0 l ++ (joined phOpen 0 (p :: r) ++ t)
          = joined phOpen 0 (l ++ [p]) ++ (joined phOpen 0 r ++ t) := by
        rw [hmem, joined_snoc, List.append_assoc]
      rw [serializeFields, serializeField_spec hmem (h0 p List.mem_cons_self) (by simp) hf,
        storedAll]
      rw [← span_snoc] at hfs'
      rw [hmem', ih (fun x hx => h0 x (List.mem_cons_of_mem p hx)) hfs']

/-! ### The new query -/

/-- What `mysql_real_escape_string` promises. -/
structure Escapes (escape : Bytes → Bytes) : Prop where
  length_le : ∀ bs, (escape bs).length ≤ 2 * bs.length
  no_nul : ∀ bs, (0 : UInt8) ∉ escape bs

/-- The room the copy loop may use. -/
def room (ps : Pieces) (ss : List Bytes) : Nat :=
  (List.zipWith (fun p s => p.before.length + 2 * s.length) ps ss).sum

theorem room_cons (p : Piece UInt8) (ps : Pieces) (s : Bytes) (ss : List Bytes) :
    room (p :: ps) (s :: ss) = p.before.length + 2 * s.length + room ps ss := by
  rw [room, List.zipWith_cons_cons, List.sum_cons]
  rfl

theorem splice_cons (escape : Bytes → Bytes) (p : Piece UInt8) (ps : Pieces) (s : Bytes)
    (ss : List Bytes) : splice escape (p :: ps) (s :: ss)
      = p.before ++ escape s ++ splice escape ps ss := rfl

theorem room_le (ps : Pieces) (ss : List Bytes) :
    room ps ss ≤ span ps + 2 * (ss.map List.length).sum := by
  induction ps generalizing ss with
  | nil => exact Nat.zero_le _
  | cons p ps ih =>
    cases ss with
    | nil => exact Nat.zero_le _
    | cons s ss =>
      have hrest := ih ss
      rw [room_cons, span_cons, List.map_cons, List.sum_cons, Piece.size]
      omega

theorem copyField_spec (hesc : Escapes escape) (a t : Bytes) {p : Piece UInt8} {f : Field}
    (done : Bytes) {slack s : Bytes} {k : Nat} (hpo : f.po = a.length + p.before.length)
    (hps : f.ps = p.body.length + 2)
    (hroom : p.before.length + 2 * s.length + k ≤ slack.length) (hk : k ≠ 0) :
    ∃ slack', copyField escape (a ++ (p.text phOpen 0 ++ t)) ⟨done ++ slack, done.length, a.length⟩ f s
        = .ok ⟨done ++ (p.before ++ escape s) ++ slack', (done ++ (p.before ++ escape s)).length,
          a.length + p.size⟩ ∧ k ≤ slack'.length := by
  have hle := hesc.length_le s
  have hmem : a ++ (p.text phOpen 0 ++ t) = a ++ p.before ++ (phOpen :: (p.body ++ [0]) ++ t) := by
    simp [Piece.text]
  have hread : readBytes (ε := MexError) (a ++ (p.text phOpen 0 ++ t)) a.length (f.po - a.length)
      = .ok ⟨p.before, by rw [hpo]; omega⟩ := by
    rw [hmem]
    exact readBytes_append rfl _
  have hwrite : writeBytes (ε := MexError) (done ++ slack) done.length p.before
      = .ok (done ++ p.before ++ slack.drop p.before.length) :=
    writeBytes_append rfl (by omega)
  have hpnq : done.length + (f.po - a.length) = (done ++ p.before).length := by
    rw [hpo, List.length_append]
    omega
  have hescape : realEscapeString escape (done ++ p.before ++ slack.drop p.before.length)
      (done ++ p.before).length s = .ok (done ++ p.before ++ (escape s ++ [0]) ++
        (slack.drop p.before.length).drop (escape s ++ [0]).length) := by
    rw [realEscapeString, if_pos]
    · exact writeBytes_append rfl (by simp; omega)
    · simp
      omega
  refine ⟨0 :: (slack.drop p.before.length).drop (escape s ++ [0]).length, ?_, ?_⟩
  · have hnot : ¬f.po < a.length := by omega
    rw [copyField, if_neg hnot]
    dsimp only
    rw [hread, Outcome.ok_bind, hwrite, Outcome.ok_bind, hpnq, hescape, Outcome.ok_bind, hpo, hps,
      Piece.size]
    simp
    omega
  · simp
    omega

/-- The copy loop appends the text of each piece and the escaped bytes. -/
theorem copyFields_spec (hesc : Escapes escape) {l r : Pieces} (t done : Bytes) {slack : Bytes}
    (hbody : ∀ p ∈ r, p.body.length + 2 < 2 ^ 32) {vs : List MxArray} (hv : r.length ≤ vs.length)
    {fs : List Field} (hfs : fieldsOf (span l) r vs = .ok fs) {ss : List Bytes}
    (hss : ss.length = r.length) {k : Nat}
    (hroom : room r ss + k ≤ slack.length) (hk : k ≠ 0) :
    ∃ slack', copyFields escape (joined phOpen 0 l ++ (joined phOpen 0 r ++ t))
        ⟨done ++ slack, done.length, span l⟩ (fs.zip ss)
        = .ok ⟨done ++ splice escape r ss ++ slack', (done ++ splice escape r ss).length,
          span (l ++ r)⟩ ∧ k ≤ slack'.length := by
  induction r generalizing l vs fs ss done slack with
  | nil =>
    cases hfs
    refine ⟨slack, ?_, Nat.le_trans (Nat.le_add_left _ _) hroom⟩
    rw [List.append_nil]
    simp [splice, copyFields]
  | cons p r ih =>
    cases vs with
    | nil => cases hv
    | cons v vs =>
      cases ss with
      | nil => cases hss
      | cons s ss =>
        obtain ⟨f, hf, hfs⟩ := Outcome.bind_eq_ok hfs
        obtain ⟨fs', hfs', hfs⟩ := Outcome.bind_eq_ok hfs
        cases hfs
        rw [room_cons] at hroom
        have hmem : joined phOpen 0 l ++ (joined phOpen 0 (p :: r) ++ t)
            = joined phOpen 0 l ++ (p.text phOpen 0 ++ (joined phOpen 0 r ++ t)) := by
          rw [joined_cons, List.append_assoc]
        have hmem' : joined phOpen 0 l ++ (joined phOpen 0 (p :: r) ++ t)
            = joined phOpen 0 (l ++ [p]) ++ (joined phOpen 0 r ++ t) := by
          rw [hmem, joined_snoc, List.append_assoc]
        have hps : (p.body.length + 2) % 2 ^ 32 = p.body.length + 2 :=
          Nat.mod_eq_of_lt (hbody p List.mem_cons_self)
        have hroom₁ : p.before.length + 2 * s.length + (room r ss + k) ≤ slack.length := by
          omega
        obtain ⟨slack₁, hcopy, hslack₁⟩ := copyField_spec hesc (joined phOpen 0 l)
          (joined phOpen 0 r ++ t) (p := p) done
          (f := ⟨span l + p.before.length, (p.body.length + 2) % 2 ^ 32,
            span l + p.before.length + 2, f.1, f.2, v⟩)
          (by rw [length_joined]) hps hroom₁ (by omega)
        rw [length_joined, ← hmem, ← span_snoc] at hcopy
        rw [← span_snoc] at hfs'
        obtain ⟨slack', hrest, hslack'⟩ := ih (l := l ++ [p]) _
          (fun x hx => hbody x (List.mem_cons_of_mem p hx)) (Nat.le_of_succ_le_succ hv) hfs'
          (Nat.succ.inj hss) hslack₁
        refine ⟨slack', ?_, hslack'⟩
        rw [List.zip_cons_cons, copyFields, hcopy, Outcome.ok_bind, hmem', hrest, splice_cons,
          List.append_assoc l]
        simp

theorem buildQuery_spec (hesc : Escapes escape) {ps : Pieces} (tail : Bytes)
    (hbody : ∀ p ∈ ps, p.body.length + 2 < 2 ^ 32) {vs : List MxArray}
    (hv : ps.length ≤ vs.length) {fs : List Field} (hfs : fieldsOf 0 ps vs = .ok fs)
    {ss : List Bytes} (hss : ss.length = ps.length) :
    ∃ slack, buildQuery escape (joined phOpen 0 ps ++ (tail ++ [0])) (span ps + tail.length) fs ss
      = .ok (splice escape ps ss ++ (tail ++ [0]) ++ slack,
        (splice escape ps ss).length + (tail.length + 1)) := by
  have hroom : room ps ss + (tail.length + 1)
      ≤ (List.replicate (2 * (ss.map List.length).sum + (span ps + tail.length) + 1)
        (0 : UInt8)).length := by
    have := room_le ps ss
    rw [List.length_replicate]
    omega
  obtain ⟨slack, hcopy, hslack⟩ := copyFields_spec hesc (l := []) (tail ++ [0]) []
    hbody hv hfs hss hroom (Nat.succ_ne_zero _)
  simp only [joined_nil, List.nil_append, List.length_nil, span_nil] at hcopy
  have hread : readBytes (ε := MexError) (joined phOpen 0 ps ++ (tail ++ [0])) (span ps)
      (span ps + tail.length - span ps + 1) = .ok ⟨tail ++ [0], by simp⟩ := by
    rw [← List.append_nil (joined phOpen 0 ps ++ (tail ++ [0]))]
    exact readBytes_append (length_joined phOpen 0 ps).symm _
  have hwrite : writeBytes (ε := MexError) (splice escape ps ss ++ slack)
      (splice escape ps ss).length (tail ++ [0])
      = .ok (splice escape ps ss ++ (tail ++ [0]) ++ slack.drop (tail ++ [0]).length) :=
    writeBytes_append rfl (by simpa using hslack)
  refine ⟨slack.drop (tail ++ [0]).length, ?_⟩
  rw [buildQuery, hcopy, Outcome.ok_bind, if_neg (by simp), hread, Outcome.ok_bind, hwrite,
    Outcome.ok_bind, Nat.add_sub_cancel_left]

/-! ### The processing as a whole -/

theorem storedAll_ok {ps : Pieces} {vs : List MxArray} (hv : ps.length ≤ vs.length)
    {ss : List Bytes} (h : storedAll zlib ratioTest outer ps vs = .ok ss) :
    List.Forall₂ (fun x s => stored zlib ratioTest outer x.1.body x.2 = .ok s) (ps.zip vs) ss := by
  induction ps generalizing vs ss with
  | nil =>
    cases h
    exact .nil
  | cons p ps ih =>
    cases vs with
    | nil => cases hv
    | cons v vs =>
      obtain ⟨s, hs, h⟩ := Outcome.bind_eq_ok h
      obtain ⟨ss', hss, h⟩ := Outcome.bind_eq_ok h
      cases h
      exact .cons hs (ih (Nat.le_of_succ_le_succ hv) hss)

theorem storedAll_stop {ps : Pieces} {vs : List MxArray} {b : Outcome.Stop MexError}
    (h : (storedAll zlib ratioTest outer ps vs).stop = some b) :
    ∃ x ∈ ps.zip vs, (stored zlib ratioTest outer x.1.body x.2).stop = some b := by
  induction ps generalizing vs with
  | nil => cases h
  | cons p ps ih =>
    cases vs with
    | nil => cases h
    | cons v vs =>
      rcases Outcome.stop_bind.mp h with hs | ⟨s, -, h⟩
      · exact ⟨(p, v), List.mem_cons_self, hs⟩
      rcases Outcome.stop_bind.mp h with hss | ⟨ss, -, h⟩
      · obtain ⟨x, hx, hstop⟩ := ih hss
        exact ⟨x, List.mem_cons_of_mem (p, v) hx, hstop⟩
      · cases h

/-- The new query is the old one with its first `n` placeholders replaced. -/
def Substituted (zlib : Zlib) (ratioTest : (plen len : Nat) → Bool)
    (outer : CStr → Serializer → MxArray → Result Serial) (escape : Bytes → Bytes)
    (q : Bytes) (args : List MxArray) (n : Nat) (r : Bytes) : Prop :=
  ∃ ps tail ss, Cut q args.length ps tail ∧ ps.length = n ∧
    List.Forall₂ (fun x s => stored zlib ratioTest outer x.1.body x.2 = .ok s) (ps.zip args) ss ∧
    r = splice escape ps ss ++ tail ∧
    r.length = (ps.map fun p => p.before.length).sum + (ss.map fun s => (escape s).length).sum
      + tail.length

theorem length_splice {ps : Pieces} {ss : List Bytes} (h : ss.length = ps.length) :
    (splice escape ps ss).length = (ps.map fun p => p.before.length).sum +
      (ss.map fun s => (escape s).length).sum := by
  induction ps generalizing ss with
  | nil =>
    cases ss with
    | nil => rfl
    | cons s ss => cases h
  | cons p ps ih =>
    cases ss with
    | nil => cases h
    | cons s ss =>
      rw [splice_cons, List.length_append, List.length_append, ih (Nat.succ.inj h)]
      simp only [List.map_cons, List.sum_cons]
      omega

theorem not_mem_splice {ps : Pieces} {ss : List Bytes} (hesc : Escapes escape)
    (h0 : ∀ p ∈ ps, (0 : UInt8) ∉ p.before) : (0 : UInt8) ∉ splice escape ps ss := by
  induction ps generalizing ss with
  | nil => exact List.not_mem_nil
  | cons p ps ih =>
    cases ss with
    | nil => exact List.not_mem_nil
    | cons s ss =>
      rw [splice_cons, List.mem_append, List.mem_append]
      rintro ((h | h) | h)
      · exact h0 p List.mem_cons_self h
      · exact hesc.no_nul s h
      · exact ih (fun x hx => h0 x (List.mem_cons_of_mem p hx)) h

theorem countFlags_cases (mxGetString : MxArray → Option CStr) (vs : List MxArray) :
    (∃ e, countFlags mxGetString vs = .raised e) ∨ ∃ n, countFlags mxGetString vs = .ok n := by
  induction vs with
  | nil => exact Or.inr ⟨0, rfl⟩
  | cons v vs ih =>
    rw [countFlags]
    split
    · unfold getstring
      cases mxGetString v with
      | none => exact Or.inl ⟨_, rfl⟩
      | some s =>
        dsimp only
        rw [Outcome.ok_bind]
        split
        · rcases ih with ⟨e, he⟩ | ⟨n, hn⟩
          · rw [he]
            exact Or.inl ⟨e, rfl⟩
          · rw [hn]
            exact Or.inr ⟨n + 1, rfl⟩
        · exact Or.inr ⟨0, rfl⟩
    · exact Or.inr ⟨0, rfl⟩

theorem adjustFlags_cases (nac expected nbFlags : Nat) :
    (∃ e, adjustFlags nac expected nbFlags = .raised e) ∨
      ∃ n, adjustFlags nac expected nbFlags = .ok n := by
  unfold adjustFlags
  split
  · exact Or.inr ⟨_, rfl⟩
  · split
    · exact Or.inl ⟨_, rfl⟩
    · exact Or.inr ⟨_, rfl⟩

variable {mxGetString : MxArray → Option CStr}

/-- With no arguments the query stays what it is. -/
theorem substituted_nil (q : Bytes) : Substituted zlib ratioTest outer escape q [] 0 q :=
  ⟨[], q, [], ⟨rfl, leftmost_nil _ _, Nat.le_refl 0, fun h => absurd h (Nat.lt_irrefl 0)⟩, rfl,
    .nil, rfl, by simp⟩

/-- The types of the placeholders that the scan has found. -/
theorem ScanEnd.readTypes_eq {q : CStr} {args : List MxArray} {ps : Pieces} {tail : Bytes} {s : Scan}
    (h : ScanEnd q.1 args.length ps tail s) :
    (entries { s with nac := ps.length } 0 ps.length args >>= fun es => readTypes (q.1 ++ [0]) es)
      = fieldsOf 0 ps args >>= fun fs => .ok (joined phOpen 0 ps ++ (tail ++ [0]), fs) := by
  have hentries : entries { s with nac := ps.length } 0 ps.length args
      = .ok ((places 0 ps).zip args) :=
    entries_spec (s := { s with nac := ps.length }) (l := []) h.po h.pc h.le
  have hspec := readTypes_spec (l := []) (t := tail ++ [0]) h.le
  rw [hentries, Outcome.ok_bind, h.query, List.append_assoc]
  exact hspec

theorem Cut.serializeFields_eq {q : CStr} {args : List MxArray} {n : Nat} {ps : Pieces} {tail : Bytes}
    (h : Cut q.1 n ps tail) {fs : List Field} (hfs : fieldsOf 0 ps args = .ok fs) :
    serializeFields zlib ratioTest outer (joined phOpen 0 ps ++ (tail ++ [0])) fs
      = storedAll zlib ratioTest outer ps args := by
  refine serializeFields_spec (l := []) (fun p hp hmem => q.2 ?_) hfs
  rw [h.query]
  exact List.mem_append_left _ (mem_joined hp (Or.inr hmem))

/-- Once the scan has succeeded, the types are read, the arguments serialized and the new query
built. -/
theorem fillPlaceholders_eq {q : CStr} {args : List MxArray} {ps : Pieces} {tail : Bytes} {s : Scan}
    (h : ScanEnd q.1 args.length ps tail s) :
    fillPlaceholders zlib ratioTest outer escape (q.1 ++ [0]) q.1.length
      { s with nac := ps.length } args
      = fieldsOf 0 ps args >>= fun fs => storedAll zlib ratioTest outer ps args >>= fun ss =>
        buildQuery escape (joined phOpen 0 ps ++ (tail ++ [0])) (span ps + tail.length) fs ss := by
  have hquery : q.1.length = span ps + tail.length := by
    rw [h.query, List.length_append, length_joined]
  have htypes := h.readTypes_eq
  rw [fillPlaceholders, ← Outcome.bind_assoc, htypes, Outcome.bind_assoc, hquery]
  apply Outcome.bind_congr
  intro fs hfs
  rw [Outcome.ok_bind, h.toCut.serializeFields_eq hfs]

/-- The bodies are shorter than the query, whose length is an `int`. -/
theorem Cut.body_lt {q : Bytes} (hq : q.length < 2 ^ 31) {n : Nat} {ps : Pieces} {tail : Bytes}
    (h : Cut q n ps tail) : ∀ p ∈ ps, p.body.length + 2 < 2 ^ 32 := by
  intro p hp
  have hspan := size_le_span hp
  have hlen := congrArg List.length h.query
  rw [List.length_append, length_joined] at hlen
  rw [Piece.size] at hspan
  omega

theorem storedAll_length {ps : Pieces} {vs : List MxArray} (hv : ps.length ≤ vs.length)
    {ss : List Bytes} (h : storedAll zlib ratioTest outer ps vs = .ok ss) :
    ss.length = ps.length := by
  rw [← (storedAll_ok hv h).length_eq, List.length_zip, Nat.min_eq_left hv]

/-- Once the scan has succeeded, only `getSerialFct` and the serializers can fail. -/
theorem fillPlaceholders_spec (hesc : Escapes escape) {q : CStr} (hq : q.1.length < 2 ^ 31)
    {args : List MxArray} {ps : Pieces} {tail : Bytes} {s : Scan}
    (h : ScanEnd q.1 args.length ps tail s) :
    (∃ e, fillPlaceholders zlib ratioTest outer escape (q.1 ++ [0]) q.1.length
      { s with nac := ps.length } args = .raised e) ∨
    (∃ b, (storedAll zlib ratioTest outer ps args).stop = some b ∧
      (fillPlaceholders zlib ratioTest outer escape (q.1 ++ [0]) q.1.length
        { s with nac := ps.length } args).stop = some b) ∨
    ∃ ss slack n, storedAll zlib ratioTest outer ps args = .ok ss ∧ ss.length = ps.length ∧
      fillPlaceholders zlib ratioTest outer escape (q.1 ++ [0]) q.1.length
        { s with nac := ps.length } args
        = .ok (splice escape ps ss ++ (tail ++ [0]) ++ slack, n) := by
  rw [fillPlaceholders_eq h]
  rcases fieldsOf_cases 0 ps args with ⟨e, he⟩ | ⟨fs, hfs⟩
  · rw [he]
    exact Or.inl ⟨e, rfl⟩
  rw [hfs, Outcome.ok_bind]
  refine Or.inr ?_
  cases hstop : (storedAll zlib ratioTest outer ps args).stop with
  | some b => exact Or.inl ⟨b, rfl, Outcome.stop_bind.mpr (Or.inl hstop)⟩
  | none =>
    obtain ⟨ss, hss⟩ := Outcome.stop_eq_none.mp hstop
    have hlen := storedAll_length h.le hss
    obtain ⟨slack, hbuild⟩ := buildQuery_spec hesc tail (h.toCut.body_lt hq) h.le hfs hlen
    rw [hss, Outcome.ok_bind, hbuild]
    exact Or.inr ⟨ss, slack, _, rfl, hlen, rfl⟩

variable (zlib ratioTest outer) in
/-- How the processing ends. -/
theorem processPlaceholders_cases (hesc : Escapes escape) (mxGetString : MxArray → Option CStr)
    (q : Query) (args : List MxArray) :
    (∃ e, processPlaceholders zlib ratioTest outer escape mxGetString q args = .raised e) ∨
    (∃ ps tail, Cut q.text.1 args.length ps tail ∧ ∃ x ∈ ps.zip args, ∃ b,
      (stored zlib ratioTest outer x.1.body x.2).stop = some b ∧
      (processPlaceholders zlib ratioTest outer escape mxGetString q args).stop = some b) ∨
    ∃ r, processPlaceholders zlib ratioTest outer escape mxGetString q args = .ok r ∧
      ∃ s : CStr, At r.query 0 (s.1 ++ [0]) ∧
        Substituted zlib ratioTest outer escape q.text.1 args r.nac s.1 := by
  rw [processPlaceholders]
  rcases countFlags_cases mxGetString args.reverse with ⟨e, he⟩ | ⟨nbFlags, hflags⟩
  · rw [he]
    exact Or.inl ⟨e, rfl⟩
  rw [hflags, Outcome.ok_bind]
  by_cases hargs : args.length = 0
  · rw [if_pos hargs, List.length_eq_zero_iff.mp hargs]
    exact Or.inr (Or.inr ⟨_, rfl, q.text, at_self _, substituted_nil q.text.1⟩)
  rw [if_neg hargs]
  rcases scan_spec q.text.2 args.length with ⟨hscan, -⟩ | ⟨ps, tail, s, hscan, h⟩
  · rw [hscan]
    exact Or.inl ⟨_, rfl⟩
  rw [hscan, Outcome.ok_bind]
  rcases adjustFlags_cases ps.length args.length nbFlags with ⟨e, he⟩ | ⟨nbFlags', hflags'⟩
  · rw [he]
    exact Or.inl ⟨e, rfl⟩
  rw [hflags', Outcome.ok_bind]
  rcases fillPlaceholders_spec hesc q.length_lt h with ⟨e, he⟩ | ⟨b, hstored, hfill⟩ |
    ⟨ss, slack, n, hstored, hlen, hfill⟩
  · rw [he]
    exact Or.inl ⟨e, rfl⟩
  · obtain ⟨x, hx, hstop⟩ := storedAll_stop hstored
    exact Or.inr (Or.inl ⟨ps, tail, h.toCut, x, hx, b, hstop,
      Outcome.stop_bind.mpr (Or.inl hfill)⟩)
  rw [hfill]
  have hno : (0 : UInt8) ∉ splice escape ps ss ++ tail := by
    rw [List.mem_append]
    rintro (hmem | hmem)
    · refine not_mem_splice hesc (fun p hp hmem => q.text.2 ?_) hmem
      rw [h.query]
      exact List.mem_append_left _ (mem_joined hp (Or.inl hmem))
    · refine q.text.2 ?_
      rw [h.query]
      exact List.mem_append_right _ hmem
  refine Or.inr (Or.inr ⟨_, rfl, ⟨splice escape ps ss ++ tail, hno⟩, ?_, ps, tail, ss, h.toCut,
    rfl, storedAll_ok h.le hstored, rfl, ?_⟩)
  · show At (splice escape ps ss ++ (tail ++ [0]) ++ slack) 0 (splice escape ps ss ++ tail ++ [0])
    rw [← List.append_assoc]
    exact at_start _ _
  · rw [List.length_append, length_splice hlen]

theorem scan_stop (q : CStr) (expected : Nat) {b : Outcome.Stop MexError}
    (h : (scan (q.1 ++ [0]) expected).stop = some b) : b = .raised .placeholdersNotClosed := by
  rcases scan_spec q.2 expected with ⟨hraised, -⟩ | ⟨ps, rest, s, hok, -⟩
  · rw [hraised] at h
    exact Outcome.stop_raised.mp h
  · rw [hok] at h
    cases h

/-- **Substitution is exact.**  Whatever is accepted is the old query with its first placeholders
replaced.  The scan stays inside its tables, and apart from the errors that are raised nothing
but the serializer of a placeholder can go wrong, so the new query stays inside its memory. -/
theorem processPlaceholders_exact (hesc : Escapes escape) (mxGetString : MxArray → Option CStr)
    (q : Query) (args : List MxArray) :
    (∀ r, processPlaceholders zlib ratioTest outer escape mxGetString q args = .ok r →
      ∃ s : CStr, readCStr (ε := MexError) r.query 0 = .ok s ∧
        Substituted zlib ratioTest outer escape q.text.1 args r.nac s.1) ∧
    (∀ b, (scan (q.text.1 ++ [0]) args.length).stop = some b → b = .raised .placeholdersNotClosed) ∧
    ∀ b, (processPlaceholders zlib ratioTest outer escape mxGetString q args).stop = some b →
      (∃ e, b = .raised e) ∨ ∃ ps tail, Cut q.text.1 args.length ps tail ∧
        ∃ x ∈ ps.zip args, (stored zlib ratioTest outer x.1.body x.2).stop = some b := by
  rcases processPlaceholders_cases zlib ratioTest outer hesc mxGetString q
    args with ⟨e, he⟩ | ⟨ps, tail, hcut, x, hx, b, hstop, hb⟩ | ⟨r, hr, s, hat, hs⟩
  · rw [he]
    refine ⟨fun r hr => ?_, fun _ => scan_stop q.text args.length,
      fun b hb => Or.inl ⟨e, Outcome.stop_raised.mp hb⟩⟩
    cases hr
  · refine ⟨fun r hr => ?_, fun _ => scan_stop q.text args.length,
      fun b' hb' => Or.inr ⟨ps, tail, hcut, x, hx, ?_⟩⟩
    · rw [hr] at hb
      cases hb
    · rw [hb] at hb'
      cases hb'
      exact hstop
  · rw [hr]
    refine ⟨fun r' hr' => ?_, fun _ => scan_stop q.text args.length, fun b hb => ?_⟩
    · cases hr'
      exact ⟨s, readCStr_of_at hat, hs⟩
    · cases hb

end

/-! ### A query -/

/-- `mysql_real_escape_string` outside the mode that forbids backslashes. -/
def mysqlEscape (bs : Bytes) : Bytes := bs.flatMap fun b =>
  if b = 0 then [92, 48]
  else if b = 10 then [92, 110]
  else if b = 13 then [92, 114]
  else if b = 26 then [92, 90]
  else if b = 34 ∨ b = 39 ∨ b = 92 then [92, b]
  else [b]

theorem mysqlEscape_escapes : Escapes mysqlEscape where
  length_le bs := by
    induction bs with
    | nil => exact Nat.le_refl 0
    | cons b bs ih =>
      rw [mysqlEscape] at ih ⊢
      rw [List.flatMap_cons, List.length_append, List.length_cons]
      split_ifs <;> simp only [List.length_cons, List.length_nil] <;> omega
  no_nul bs h := by
    obtain ⟨b, -, hb⟩ := List.mem_flatMap.mp h
    split_ifs at hb with h0 h1 h2 h3 h4
    · simp at hb
    · simp at hb
    · simp at hb
    · simp at hb
    · simp only [List.mem_cons, List.not_mem_nil, or_false] at hb
      rcases hb with hb | hb
      · cases hb
      · exact h0 hb.symm
    · exact h0 (List.mem_singleton.mp hb).symm

/-- `SET @q = {B}, @b = '{'` -/
def braceQuery : Query where
  text := ⟨[83, 69, 84, 32, 64, 113, 32, 61, 32, 123, 66, 125, 44, 32, 64, 98, 32, 61, 32, 39, 123, 39],
    by decide⟩
  length_lt := by decide

/-- `uint8('''')` -/
def quoteArray : MxArray :=
  .full ⟨MxClass.uint8.id, 1, [1, 1], [39], none, rfl, by simp⟩

/-- The second brace is surplus, and the quote is escaped. -/
theorem processPlaceholders_braceQuery : ∃ (r : Processed) (s : CStr),
    processPlaceholders runZlib (fun _ _ => true) (fun _ _ _ => .undefined) mysqlEscape
      (fun _ => none) braceQuery [quoteArray] = .ok r ∧
    readCStr (ε := MexError) r.query 0 = .ok s ∧
    s.1 = [83, 69, 84, 32, 64, 113, 32, 61, 32, 92, 39, 44, 32, 64, 98, 32, 61, 32, 39, 123, 39] ∧
    Substituted runZlib (fun _ _ => true) (fun _ _ _ => .undefined) mysqlEscape braceQuery.text.1
      [quoteArray] r.nac s.1 := by
  have hrun : processPlaceholders runZlib (fun _ _ => true) (fun _ _ _ => .undefined) mysqlEscape
      (fun _ => none) braceQuery [quoteArray]
      = .ok ⟨[83, 69, 84, 32, 64, 113, 32, 61, 32, 92, 39, 44, 32, 64, 98, 32, 61, 32, 39, 123, 39, 0,
        0, 0, 0], 22, 1, 0⟩ := by
    rfl
  obtain ⟨s, hs, hsub⟩ := (processPlaceholders_exact mysqlEscape_escapes (fun _ => none) braceQuery
    [quoteArray]).1 _ hrun
  refine ⟨_, s, hrun, hs, ?_, hsub⟩
  cases hs
  rfl

end Mym
