import Mym.Lib.Loop
import Mym.Statement

/-!
# The brace step in its buffer

`parseBraces` goes over the characters of a `CREATE` or `ALTER`.  The loop of the source goes over
indices: it looks back by one in `query` and steps back by one in `parsedQueryString`, for which
`strlen(query)` bytes have been allocated.

`createOrAlter_parsed` says what the loop writes, `parsedQueryString_inside_iff` for which queries
every write is inside the buffer, and `parsedQueryString_refines` that the loop does what
`parseBraces` says.
-/

namespace Mym

/-! ### The loop -/

/-- Where the loop stands.  A `parsedQueryStringCurrentIndex` that goes below zero is negative here; as a
`size_t` it is behind the end of any buffer. -/
structure BraceLoop where
  i : Nat
  index : Int
  parsed : Bytes

namespace BraceLoop

/-- `query[i] != '\0'` -/
def more (query : Bytes) (s : BraceLoop) : Bool := query[s.i]? != some 0

/-- A brace with its backslash comes next, so that the index is stepped back. -/
def StepsBack (query : Bytes) (s : BraceLoop) : Prop :=
  0 < s.i ∧ query[s.i]?.any isBrace = true ∧ query[s.i - 1]? = some backslash

end BraceLoop

/-- `parsedQueryString[index] = c` -/
def putChar (parsed : Bytes) (index : Int) (c : UInt8) : Result Bytes :=
  if 0 ≤ index then writeEntry parsed index.toNat c else .outside

/-- `query` is the block with the NUL. -/
def braceRound (query : Bytes) (s : BraceLoop) : Result BraceLoop := do
  let c ← readByte query s.i
  if isBrace c = true ∧ s.i ≠ 0 then do
    let p ← readByte query (s.i - 1)
    if p ≠ backslash then .raised .bareBrace
    else do
      let parsed ← putChar s.parsed (s.index - 1) c
      .ok ⟨s.i + 1, s.index - 1 + 1, parsed⟩
  else do
    let parsed ← putChar s.parsed s.index c
    .ok ⟨s.i + 1, s.index + 1, parsed⟩

/-- `mxCalloc(capacity, sizeof(char))` -/
def BraceLoop.start (capacity : Nat) : BraceLoop := ⟨0, 0, List.replicate capacity 0⟩

def braceLoop (fuel capacity : Nat) (query : Bytes) : Result BraceLoop :=
  Outcome.loop (BraceLoop.more query) (braceRound query) fuel (.start capacity)

def parseInto (fuel capacity : Nat) (query : Bytes) : Result Bytes := do
  let s ← braceLoop fuel capacity query
  putChar s.parsed s.index 0

/-- `parsedQueryString` has `strlen(query)` bytes. -/
def parsedQueryString (fuel : Nat) (query : CStr) : Result Bytes :=
  parseInto fuel query.1.length (query.1 ++ [0])

/-! ### Rounds -/

section Rounds

variable {query : CStr} {capacity : Nat}

/-- The state of the loop when it has gone over `pre`. -/
def BraceLoop.after (capacity : Nat) (pre : Bytes) : BraceLoop :=
  ⟨pre.length, (unescapeBraces pre).length,
    unescapeBraces pre ++ List.replicate (capacity - (unescapeBraces pre).length) 0⟩

theorem length_unescapeBraces_le {s : Bytes} (h : PlainText s) :
    (unescapeBraces s).length ≤ s.length := by
  have hlen : (unescapeBraces s).length + s.countP isBrace = s.length := h.length_unmark
  omega

theorem putChar_next {text : Bytes} (hlt : text.length < capacity) (c : UInt8) :
    putChar (text ++ List.replicate (capacity - text.length) 0) text.length c
      = .ok (text ++ [c] ++ List.replicate (capacity - (text ++ [c]).length) 0) := by
  have hroom : capacity - text.length = capacity - (text ++ [c]).length + 1 := by
    rw [List.length_append, List.length_singleton]
    omega
  rw [putChar, if_pos (Int.natCast_nonneg _), Int.toNat_natCast, hroom, List.replicate_succ,
    writeEntry_append rfl, List.append_assoc]
  rfl

theorem putChar_last {text : Bytes} (b c : UInt8) (room : Nat) :
    putChar (text ++ [b] ++ List.replicate room 0) (((text ++ [b]).length : Nat) - 1 : Int) c
      = .ok (text ++ [c] ++ List.replicate room 0) := by
  have hindex : (((text ++ [b]).length : Nat) - 1 : Int) = (text.length : Nat) := by
    rw [List.length_append, List.length_singleton]
    omega
  rw [hindex, putChar, if_pos (Int.natCast_nonneg _), Int.toNat_natCast, List.append_assoc,
    List.singleton_append, writeEntry_append rfl, List.append_assoc]
  rfl

theorem putChar_end (text : Bytes) (c : UInt8) : putChar text text.length c = .outside := by
  rw [putChar, if_pos (Int.natCast_nonneg _), Int.toNat_natCast, writeEntry, if_neg (Nat.lt_irrefl _)]

theorem putChar_ne_raised (parsed : Bytes) (index : Int) (c : UInt8) (e : MexError) :
    putChar parsed index c ≠ .raised e := by
  unfold putChar
  split
  · exact writeEntry_ne_raised _ _ _ _
  · exact fun h => by cases h

theorem readByte_query {pre post : Bytes} {c : UInt8} (hq : query.1 = pre ++ c :: post) :
    readByte (ε := MexError) (query.1 ++ [0]) pre.length = .ok c := by
  rw [readByte_eq_ok, hq, List.append_assoc, List.getElem?_append_right (Nat.le_refl _), Nat.sub_self]
  rfl

theorem readByte_before {pre post : Bytes} {p : UInt8} (hq : query.1 = pre ++ post)
    (hp : pre.getLast? = some p) :
    readByte (ε := MexError) (query.1 ++ [0]) (pre.length - 1) = .ok p := by
  obtain ⟨front, rfl⟩ := List.getLast?_eq_some_iff.mp hp
  rw [List.append_assoc, List.singleton_append] at hq
  rw [List.length_append, List.length_singleton, Nat.add_sub_cancel]
  exact readByte_query hq

theorem more_after {pre post : Bytes} {c : UInt8} (hq : query.1 = pre ++ c :: post) :
    BraceLoop.more (query.1 ++ [0]) (.after capacity pre) = true := by
  have hc : c ≠ 0 := by
    rintro rfl
    exact query.2 (hq ▸ by simp)
  have hread := readByte_eq_ok.mp (readByte_query hq)
  show ((query.1 ++ [0])[pre.length]? != some 0) = true
  rw [hread]
  simpa using hc

theorem more_end : BraceLoop.more (query.1 ++ [0]) (.after capacity query.1) = false := by
  show ((query.1 ++ [0])[query.1.length]? != some 0) = false
  rw [List.getElem?_concat_length]
  rfl

theorem braceRound_other {mem : Bytes} {s : BraceLoop} {c : UInt8}
    (hread : readByte (ε := MexError) mem s.i = .ok c) (hc : ¬(isBrace c = true ∧ s.i ≠ 0)) :
    braceRound mem s = putChar s.parsed s.index c >>= fun parsed =>
      .ok ⟨s.i + 1, s.index + 1, parsed⟩ := by
  rw [braceRound, hread, Outcome.ok_bind, if_neg hc]

theorem braceRound_brace {mem : Bytes} {s : BraceLoop} {c p : UInt8}
    (hread : readByte (ε := MexError) mem s.i = .ok c) (hc : isBrace c = true ∧ s.i ≠ 0)
    (hback : readByte (ε := MexError) mem (s.i - 1) = .ok p) :
    braceRound mem s = if p ≠ backslash then .raised .bareBrace else
      putChar s.parsed (s.index - 1) c >>= fun parsed =>
        .ok ⟨s.i + 1, s.index - 1 + 1, parsed⟩ := by
  rw [braceRound, hread, Outcome.ok_bind, if_pos hc, hback, Outcome.ok_bind]

/-- **A round** takes in one character, if it is no bare brace. -/
theorem braceRound_after {pre post : Bytes} {c : UInt8} (hq : query.1 = pre ++ c :: post)
    (hcap : query.1.length ≤ capacity) (h : PlainText (pre ++ [c])) :
    braceRound (query.1 ++ [0]) (.after capacity pre) = .ok (.after capacity (pre ++ [c])) := by
  obtain ⟨hpre, hlast⟩ := guarded_snoc.mp h
  have hle := length_unescapeBraces_le hpre
  rw [hq, List.length_append, List.length_cons] at hcap
  by_cases hc : isBrace c = true
  · have hback := hlast hc
    obtain ⟨front, rfl⟩ := List.getLast?_eq_some_iff.mp hback
    have hne : (BraceLoop.after capacity (front ++ [backslash])).i ≠ 0 := by
      simp [BraceLoop.after]
    have hold : unescapeBraces (front ++ [backslash]) = unescapeBraces front ++ [backslash] :=
      unmark_snoc front (by decide)
    have hnew : unescapeBraces (front ++ [backslash] ++ [c]) = unescapeBraces front ++ [c] :=
      unmark_snoc_mark (by decide) front hc
    have hlen : (unescapeBraces front ++ [backslash]).length
        = (unescapeBraces front ++ [c]).length := by
      rw [List.length_append, List.length_append, List.length_singleton, List.length_singleton]
    have hcount : (front ++ [backslash] ++ [c]).length = (front ++ [backslash]).length + 1 := by
      rw [List.length_append, List.length_singleton]
    rw [braceRound_brace (s := .after capacity (front ++ [backslash])) (readByte_query hq) ⟨hc, hne⟩
      (readByte_before hq hback), if_neg (not_not.mpr rfl), BraceLoop.after, BraceLoop.after, hold,
      putChar_last, Outcome.ok_bind, hnew, hlen, Int.sub_add_cancel, hcount]
  · have hnew : unescapeBraces (pre ++ [c]) = unescapeBraces pre ++ [c] :=
      unmark_snoc pre (Bool.eq_false_iff.mpr hc)
    have hlen : (pre ++ [c]).length = pre.length + 1 := by
      rw [List.length_append, List.length_singleton]
    have hlen' : (unescapeBraces pre ++ [c]).length = (unescapeBraces pre).length + 1 := by
      rw [List.length_append, List.length_singleton]
    rw [braceRound_other (s := .after capacity pre) (readByte_query hq) fun hand => hc hand.1,
      BraceLoop.after, BraceLoop.after, putChar_next (by omega), Outcome.ok_bind, hnew, hlen, hlen']
    rfl

theorem braceRound_bare {pre post : Bytes} {c : UInt8} (hq : query.1 = pre ++ c :: post)
    (hne : pre ≠ []) (hc : isBrace c = true) (hlast : pre.getLast? ≠ some backslash) :
    braceRound (query.1 ++ [0]) (.after capacity pre) = .raised .bareBrace := by
  have hback : pre.getLast? = some (pre.getLast hne) := List.getLast?_eq_some_getLast hne
  have hp : pre.getLast hne ≠ backslash := by
    intro hp
    exact hlast (hp ▸ hback)
  have hpos : pre.length ≠ 0 := fun h => hne (List.length_eq_zero_iff.mp h)
  rw [braceRound_brace (s := .after capacity pre) (readByte_query hq) ⟨hc, hpos⟩
    (readByte_before hq hback), if_pos hp]

/-- What the loop has gone over when it stands at `t`. -/
def BraceLoop.WentOver (query : Bytes) (capacity : Nat) (t : BraceLoop) : Prop :=
  ∃ pre post, query = pre ++ post ∧ PlainText pre ∧ t = .after capacity pre

theorem rounds_after {pre post : Bytes} (hq : query.1 = pre ++ post)
    (hcap : query.1.length ≤ capacity) (h : PlainText pre) :
    Outcome.Rounds (BraceLoop.more (query.1 ++ [0])) (braceRound (query.1 ++ [0])) pre.length
      (.start capacity) (.after capacity pre) := by
  induction pre using List.reverseRecOn generalizing post with
  | nil => rfl
  | append_singleton pre c ih =>
    rw [List.append_assoc, List.singleton_append] at hq
    rw [List.length_append, List.length_singleton]
    exact Outcome.rounds_add (ih hq (guarded_snoc.mp h).1)
      (Outcome.rounds_one (more_after hq) (braceRound_after hq hcap h))

/-- A `CREATE` or `ALTER` does not begin with a brace, so that every bare brace is looked at. -/
theorem wentOver_step (hhead : ∀ c ∈ query.1.head?, isBrace c = false)
    (hcap : query.1.length ≤ capacity) (s t : BraceLoop) (h : s.WentOver query.1 capacity)
    (hmore : s.more (query.1 ++ [0]) = true) (hround : braceRound (query.1 ++ [0]) s = .ok t) :
    t.WentOver query.1 capacity := by
  obtain ⟨pre, post, hq, hpre, rfl⟩ := h
  cases post with
  | nil =>
    rw [List.append_nil] at hq
    rw [← hq, more_end] at hmore
    cases hmore
  | cons c post =>
    by_cases hplain : PlainText (pre ++ [c])
    · rw [braceRound_after hq hcap hplain] at hround
      cases hround
      exact ⟨pre ++ [c], post, by rw [hq, List.append_assoc]; rfl, hplain, rfl⟩
    · obtain ⟨hc, hlast⟩ := Classical.not_imp.mp fun hlast =>
        hplain (guarded_snoc.mpr ⟨hpre, hlast⟩)
      have hne : pre ≠ [] := by
        rintro rfl
        rw [hhead c (by rw [hq]; rfl)] at hc
        cases hc
      rw [braceRound_bare hq hne hc hlast] at hround
      cases hround

end Rounds

/-! ### Runs -/

/-- The loop comes to stand at `t`. -/
def BraceLoop.Reached (query : Bytes) (capacity : Nat) (t : BraceLoop) : Prop :=
  ∃ k, Outcome.Rounds (BraceLoop.more query) (braceRound query) k (.start capacity) t

/-- Place `i` holds a brace that no backslash stands directly in front of. -/
def BareBrace (s : Bytes) (i : Nat) : Prop :=
  s[i]?.any isBrace = true ∧ ¬(0 < i ∧ s[i - 1]? = some backslash)

theorem plainText_iff {s : Bytes} : PlainText s ↔ ∀ i, ¬BareBrace s i := by
  rw [PlainText, guarded_iff_getElem?]
  refine forall_congr' fun i => ?_
  rw [BareBrace, not_and_not_right]
  cases s[i]? with
  | none => simp
  | some c => simp

def unescapedQuery (query : CStr) : CStr :=
  ⟨unescapeBraces query.1, fun h => query.2 ((unmark_sublist query.1).subset h)⟩

section Runs

variable {query : CStr} (h : isCreateOrAlter query.1 = true) {capacity : Nat}
  (hcap : query.1.length ≤ capacity)

include hcap

theorem braceLoop_plain (hplain : PlainText query.1) :
    braceLoop (query.1.length + 1) capacity (query.1 ++ [0]) = .ok (.after capacity query.1) := by
  rw [braceLoop, Outcome.loop_of_rounds (rounds_after (List.append_nil _).symm hcap hplain),
    Outcome.loop_of_false more_end]

theorem parseInto_plain (hplain : PlainText query.1)
    (hroom : (unescapeBraces query.1).length < capacity) :
    ∃ b, parseInto (query.1.length + 1) capacity (query.1 ++ [0]) = .ok b ∧
      readCStr (ε := MexError) b 0 = .ok (unescapedQuery query) := by
  rw [parseInto, braceLoop_plain hcap hplain, Outcome.ok_bind]
  exact ⟨_, putChar_next hroom 0, readCStr_of_at (at_start _ _)⟩

include h

theorem wentOver_of_reached {t : BraceLoop} (ht : t.Reached (query.1 ++ [0]) capacity) :
    t.WentOver query.1 capacity := by
  obtain ⟨k, hrounds⟩ := ht
  have hhead : ∀ c ∈ query.1.head?, isBrace c = false := fun c hc => (isCreateOrAlter_head h c hc).1
  exact Outcome.rounds_keep (wentOver_step hhead hcap) hrounds
    ⟨[], query.1, rfl, guarded_of_none (by simp), rfl⟩

theorem index_nonneg {t : BraceLoop} (ht : t.Reached (query.1 ++ [0]) capacity) :
    0 ≤ t.index ∧ (t.StepsBack (query.1 ++ [0]) → 0 ≤ t.index - 1) := by
  obtain ⟨pre, post, hq, hpre, rfl⟩ := wentOver_of_reached h hcap ht
  refine ⟨Int.natCast_nonneg _, ?_⟩
  intro hw
  obtain ⟨hpos, -⟩ := hw
  have hne : unescapeBraces pre ≠ [] := unmark_ne_nil (List.ne_nil_of_length_pos hpos)
  have hlen := List.length_pos_of_ne_nil hne
  show (0 : Int) ≤ (unescapeBraces pre).length - 1
  omega

theorem braceLoop_bare (hbare : ¬PlainText query.1) :
    ∃ fuel, braceLoop fuel capacity (query.1 ++ [0]) = .raised .bareBrace := by
  obtain ⟨pre, c, post, hq, hpre, hc, hlast⟩ := exists_of_not_guarded hbare
  have hne : pre ≠ [] := by
    rintro rfl
    have hhead := (isCreateOrAlter_head h c (by rw [hq]; rfl)).1
    rw [hhead] at hc
    cases hc
  refine ⟨pre.length + 1, ?_⟩
  rw [braceLoop, Outcome.loop_of_rounds (rounds_after hq hcap hpre),
    Outcome.loop_of_true (more_after hq), braceRound_bare hq hne hc hlast]
  rfl

theorem braceLoop_cases (fuel : Nat) :
    braceLoop fuel capacity (query.1 ++ [0]) = .diverged ∨
      PlainText query.1 ∧
        braceLoop fuel capacity (query.1 ++ [0]) = .ok (.after capacity query.1) ∨
      ¬PlainText query.1 ∧ braceLoop fuel capacity (query.1 ++ [0]) = .raised .bareBrace := by
  by_cases hdiv : braceLoop fuel capacity (query.1 ++ [0]) = .diverged
  · exact Or.inl hdiv
  right
  by_cases hplain : PlainText query.1
  · left
    have hend := braceLoop_plain hcap hplain
    refine ⟨hplain, ?_⟩
    rw [← hend]
    exact Outcome.loop_unique hdiv fun hd => by cases hend.symm.trans hd
  · right
    obtain ⟨n, hend⟩ := braceLoop_bare h hcap hplain
    refine ⟨hplain, ?_⟩
    rw [← hend]
    exact Outcome.loop_unique hdiv fun hd => by cases hend.symm.trans hd

/-- **What the step makes of a `CREATE` or `ALTER`.**  A bare brace is an error.  Otherwise the index ends
behind the query without the backslashes of its braces, and where the terminator has room this is the
string.  The index never goes below zero. -/
theorem createOrAlter_parsed :
    ((∃ fuel, parseInto fuel capacity (query.1 ++ [0]) = .raised .bareBrace) ↔
      ∃ i, BareBrace query.1 i) ∧
    ((∀ i, ¬BareBrace query.1 i) →
      (∃ fuel t, braceLoop fuel capacity (query.1 ++ [0]) = .ok t ∧
        t.index = (unescapeBraces query.1).length ∧ unescapeBraces query.1 <+: t.parsed) ∧
      ((unescapeBraces query.1).length < capacity →
        ∃ fuel b, parseInto fuel capacity (query.1 ++ [0]) = .ok b ∧
          readCStr (ε := MexError) b 0 = .ok (unescapedQuery query)) ∧
      (unescapeBraces query.1).length + query.1.countP isBrace = query.1.length) ∧
    ∀ t : BraceLoop, t.Reached (query.1 ++ [0]) capacity →
      0 ≤ t.index ∧ (t.StepsBack (query.1 ++ [0]) → 0 ≤ t.index - 1) := by
  refine ⟨?_, ?_, fun t ht => index_nonneg h hcap ht⟩
  · have hbare : (∃ i, BareBrace query.1 i) ↔ ¬PlainText query.1 := by
      rw [plainText_iff, not_forall_not]
    rw [hbare]
    refine ⟨?_, ?_⟩
    · rintro ⟨fuel, hraised⟩ hplain
      rw [parseInto] at hraised
      rcases braceLoop_cases h hcap fuel with hend | ⟨-, hend⟩ | ⟨hbare, -⟩
      · rw [hend] at hraised
        cases hraised
      · rw [hend, Outcome.ok_bind] at hraised
        exact putChar_ne_raised _ _ _ _ hraised
      · exact hbare hplain
    · intro hbare
      obtain ⟨fuel, hraised⟩ := braceLoop_bare h hcap hbare
      refine ⟨fuel, ?_⟩
      rw [parseInto, hraised]
      rfl
  · intro hplain
    have hplain := plainText_iff.mpr hplain
    refine ⟨⟨_, _, braceLoop_plain hcap hplain, rfl, List.prefix_append _ _⟩, ?_,
      hplain.length_unmark⟩
    intro hroom
    exact ⟨_, parseInto_plain hcap hplain hroom⟩

end Runs

/-- `ALTER \x5c\x7b\x5c\x7d` -/
def escapedQuery : CStr := ⟨[65, 76, 84, 69, 82, 32, 92, 123, 92, 125], by decide⟩

theorem createOrAlter_parsed_escaped :
    (∀ i, ¬BareBrace escapedQuery.1 i) ∧
    ∃ fuel b, parseInto fuel 10 (escapedQuery.1 ++ [0]) = .ok b ∧
      readCStr (ε := MexError) b 0 = .ok (unescapedQuery escapedQuery) := by
  have hplain : ∀ i, ¬BareBrace escapedQuery.1 i := plainText_iff.mp (by decide)
  have hcap : escapedQuery.1.length ≤ 10 := Nat.le_refl 10
  exact ⟨hplain, ((createOrAlter_parsed rfl hcap).2.1 hplain).2.1 (by decide)⟩

/-! ### The buffer -/

/-- Without a brace the text fills the buffer, and the terminator is outside. -/
theorem parsedQueryString_full {query : CStr} (hnone : ∀ c ∈ query.1, isBrace c = false) :
    parsedQueryString (query.1.length + 1) query = .outside := by
  have hplain : PlainText query.1 := guarded_of_none hnone
  have hsame : unescapeBraces query.1 = query.1 := unmark_of_none hnone
  rw [parsedQueryString, parseInto, braceLoop_plain (Nat.le_refl _) hplain, Outcome.ok_bind,
    BraceLoop.after, hsame]
  show putChar (query.1 ++ List.replicate (query.1.length - query.1.length) 0) query.1.length 0 = _
  rw [Nat.sub_self, List.replicate_zero, List.append_nil, putChar_end]

/-- **When every write is inside the buffer.**  The query has a brace, whose backslash leaves room for the
terminator. -/
theorem parsedQueryString_inside_iff {query : CStr} (h : isCreateOrAlter query.1 = true) :
    (∀ fuel, parsedQueryString fuel query ≠ .outside) ↔ ∃ c ∈ query.1, isBrace c = true := by
  have hcap := Nat.le_refl query.1.length
  refine ⟨?_, ?_⟩
  · intro hinside
    by_contra hno
    have hnone : ∀ c ∈ query.1, isBrace c = false := by
      intro c hc
      by_contra hbrace
      exact hno ⟨c, hc, Bool.not_eq_false _ ▸ hbrace⟩
    exact hinside _ (parsedQueryString_full hnone)
  · rintro ⟨c, hc, hbrace⟩ fuel
    rw [parsedQueryString, parseInto]
    rcases braceLoop_cases h hcap fuel with hend | ⟨hplain, hend⟩ | ⟨-, hend⟩
    · rw [hend]
      exact fun hout => by cases hout
    · have hroom : (unescapeBraces query.1).length < query.1.length :=
        (length_unescapeBraces_lt_iff hplain).mpr ⟨c, hc, hbrace⟩
      have hput : putChar (BraceLoop.after query.1.length query.1).parsed
          (BraceLoop.after query.1.length query.1).index 0 = .ok _ := putChar_next hroom 0
      rw [hend, Outcome.ok_bind, hput]
      exact fun hout => by cases hout
    · rw [hend]
      exact fun hout => by cases hout

/-- **The loop over indices is the one over characters**, also where it writes behind its
buffer. -/
theorem parsedQueryString_refines {query : CStr} (h : isCreateOrAlter query.1 = true) :
    ∃ fuel, (do
      let b ← parsedQueryString fuel query
      let s ← readCStr b 0
      .ok s.1) = braceStep query.1 := by
  have hcap := Nat.le_refl query.1.length
  rw [braceStep_eq h]
  by_cases hplain : PlainText query.1
  · rw [if_pos hplain]
    by_cases hbrace : HasBrace query.1
    · obtain ⟨b, hb, hread⟩ := parseInto_plain hcap hplain
        ((length_unescapeBraces_lt_iff hplain).mpr hbrace)
      refine ⟨query.1.length + 1, ?_⟩
      rw [parsedQueryString, hb, Outcome.ok_bind, hread, Outcome.ok_bind, if_pos hbrace]
      rfl
    · have hnone : ∀ c ∈ query.1, isBrace c = false := fun c hc =>
        Bool.eq_false_iff.mpr fun hc' => hbrace ⟨c, hc, hc'⟩
      refine ⟨query.1.length + 1, ?_⟩
      rw [parsedQueryString_full hnone, if_neg hbrace]
      rfl
  · obtain ⟨fuel, hraised⟩ := braceLoop_bare h hcap hplain
    refine ⟨fuel, ?_⟩
    rw [parsedQueryString, parseInto, hraised, if_neg hplain]
    rfl

theorem parsedQueryString_inside_escaped :
    isCreateOrAlter escapedQuery.1 = true ∧ ∀ fuel, parsedQueryString fuel escapedQuery ≠ .outside :=
  ⟨rfl, (parsedQueryString_inside_iff rfl).mpr ⟨123, by decide, rfl⟩⟩

/-- `CREATE TABLE t (i int)` -/
def createTable : CStr :=
  ⟨[67, 82, 69, 65, 84, 69, 32, 84, 65, 66, 76, 69, 32, 116, 32, 40, 105, 32, 105, 110, 116, 41],
    by decide⟩

/-- **Without a brace the terminator is outside**: it goes to index 22 of 22 bytes. -/
theorem parsedQueryString_outside :
    isCreateOrAlter createTable.1 = true ∧
    braceLoop 23 createTable.1.length (createTable.1 ++ [0]) = .ok ⟨22, 22, createTable.1⟩ ∧
    createTable.1.length = 22 ∧ parsedQueryString 23 createTable = .outside :=
  ⟨rfl, rfl, rfl, rfl⟩

end Mym
