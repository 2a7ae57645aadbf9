import Mym.Connection

/-!
# Which statements reach the server

Every command string that is not a keyword, does not begin with `use ` and does not name
the serializers in its first word ought to go to the server (`Routed`).  The chain of
tests looks for `serialize` anywhere in the string, so a statement that mentions a table
`serialized` is taken for a request to serialize and is not sent.  `routed_iff` says which
strings are treated as they ought to be.
-/

namespace Mym

/-- `isspace` -/
def isSpace (b : UInt8) : Bool := b == 32 || (9 ≤ b && b ≤ 13)

def firstWord (s : Bytes) : Bytes := (s.dropWhile isSpace).takeWhile fun b => !isSpace b

/-- The first word asks for the serializers or the deserializer. -/
def namesSerializer (s : CStr) : Bool :=
  strcaseEq (firstWord s.1) serializeWord || strcaseEq (firstWord s.1) deserializeWord

/-- One of the keywords, or a database to use. -/
def isKeyword (s : CStr) : Bool :=
  strcaseEq s.1 openWord || strcaseEq s.1 closeWord || strcaseEq s.1 closeAllWord
    || (strcaseEq s.1 useWord || strncaseEq s.1 usePrefix)
    || strcaseEq s.1 statusWord || strcaseEq s.1 versionWord

/-- On an open connection that answers, the prepared statement is passed to the client. -/
def Sent (s : CStr) : Prop :=
  ∀ w inp a i stmt, inp.command = some (some s) → connectionId inp.id = .ok (some i) →
    (w.c i).isopen = true → a.ping = true → a.prepared = .ok stmt →
    ∃ after before, w.log <:+ before ∧ (mexFunction w inp a).1.log
      = after ++ .call i (w.c i).conn (.query stmt a.results) :: before

structure Routed (s : CStr) : Prop where
  local_only : classify s = .SERIALIZE ∨ classify s = .DESERIALIZE → namesSerializer s = true
  sent : namesSerializer s = false → isKeyword s = false → classify s = .CMD ∧ Sent s

/-! ### The query branch -/

theorem escapes_log (w : World) (i : Slot) (n : Nat) :
    (Nat.repeat (fun w => w.call i .escape) n w).c = w.c ∧
      w.log <:+ (Nat.repeat (fun w => w.call i .escape) n w).log := by
  induction n with
  | zero => exact ⟨rfl, List.suffix_refl _⟩
  | succ n ih => exact ⟨ih.1, ih.2.trans (List.suffix_cons _ _)⟩

theorem fetch_log (w : World) (i : Slot) (a : Answers) : w.log <:+ (fetch w i a).1.log := by
  have hcall : ∀ (w : World) fn, w.log <:+ (w.call i fn).log := fun w fn => List.suffix_cons _ _
  unfold fetch
  dsimp only
  cases a.stored with
  | noRows => exact ((hcall _ _).trans (hcall _ _)).trans (hcall _ _)
  | failed => exact ((hcall _ _).trans (hcall _ _)).trans (hcall _ _)
  | rows output => exact hcall _ _

/-- The query branch sends what has been prepared. -/
theorem sent_of_classify {s : CStr} (h : classify s = .CMD) : Sent s := by
  intro w inp a i stmt hcommand hid ho hping hprepared
  have hparse : parse w inp = .ok (.CMD, i) := by
    unfold parse
    rw [hid, hcommand]
    simp [queryType, h, pickSlot]
  rw [mexFunction, hparse]
  show ∃ after before, w.log <:+ before ∧ (cmdBranch w i a).1.log = _
  unfold cmdBranch World.pinged
  rw [if_pos ho, hping, if_pos rfl, hprepared]
  dsimp only
  obtain ⟨hc, hlog⟩ := escapes_log (w.call i (.ping true)) i a.escapes
  have hlog : w.log <:+ _ := (List.suffix_cons _ _).trans hlog
  have hconn := congrArg (fun c => (c i).conn) hc
  generalize Nat.repeat (fun w => w.call i .escape) a.escapes (w.call i (.ping true)) = w'
    at hlog hconn ⊢
  have hentry : (w'.call i (.query stmt a.results)).log
      = .call i (w.c i).conn (.query stmt a.results) :: w'.log := by
    show Entry.call i (w'.c i).conn _ :: w'.log = _
    rw [hconn]
    rfl
  split
  · exact ⟨[_], w'.log, hlog, congrArg (_ :: ·) hentry⟩
  · obtain ⟨after, hafter⟩ := fetch_log (w'.call i (.query stmt a.results)) i a
    exact ⟨after, w'.log, hlog, by rw [← hafter, hentry]⟩

/-! ### The chain of tests -/

/-- Who asks to deserialize also mentions `serialize`. -/
theorem strcasestr_serialize {s : Bytes} (h : strcasestr s deserializeWord = true) :
    strcasestr s serializeWord = true := by
  have hword : serializeWord.map toLower <:+: deserializeWord.map toLower := by decide
  exact decide_eq_true (hword.trans (of_decide_eq_true h))

/-- A string that is no keyword is sorted by where it mentions the serializers. -/
theorem classify_of_not_isKeyword {s : CStr} (h : isKeyword s = false) :
    classify s = if strcasestr s.1 deserializeWord then .DESERIALIZE
      else if strcasestr s.1 serializeWord then .SERIALIZE else .CMD := by
  simp only [isKeyword, Bool.or_eq_false_iff] at h
  obtain ⟨⟨⟨⟨⟨h1, h2⟩, h3⟩, h4, h5⟩, h6⟩, h7⟩ := h
  simp only [classify, h1, h2, h3, h4, h5, h6, h7, Bool.or_self, Bool.false_eq_true, if_false]

theorem classify_of_isKeyword {s : CStr} (h : isKeyword s = true) :
    classify s ≠ .SERIALIZE ∧ classify s ≠ .DESERIALIZE := by
  unfold classify
  split
  · exact ⟨nofun, nofun⟩
  split
  · exact ⟨nofun, nofun⟩
  split
  · exact ⟨nofun, nofun⟩
  split
  · exact ⟨nofun, nofun⟩
  split
  · exact ⟨nofun, nofun⟩
  split
  · exact ⟨nofun, nofun⟩
  next h1 h2 h3 h4 h5 h6 =>
  simp only [isKeyword, h1, h2, h3, h4, h5, h6, Bool.or_self, Bool.false_eq_true] at h

/-- **Which strings are routed as they ought to be.** -/
theorem routed_iff {s : CStr} :
    Routed s ↔
      (strcasestr s.1 serializeWord = true → namesSerializer s = true ∨ isKeyword s = true) := by
  refine ⟨?_, ?_⟩
  · intro h hser
    by_contra hno
    obtain ⟨hname, hkey⟩ := not_or.mp hno
    have hclass := classify_of_not_isKeyword (Bool.eq_false_of_not_eq_true hkey)
    rw [hser] at hclass
    refine hname (h.local_only ?_)
    rw [hclass]
    split
    · exact Or.inr rfl
    · exact Or.inl rfl
  · intro h
    refine ⟨?_, ?_⟩
    · intro hclass
      by_cases hkey : isKeyword s = true
      · obtain ⟨h1, h2⟩ := classify_of_isKeyword hkey
        rcases hclass with hc | hc
        · exact absurd hc h1
        · exact absurd hc h2
      · have hser : strcasestr s.1 serializeWord = true := by
          rw [classify_of_not_isKeyword (Bool.eq_false_of_not_eq_true hkey)] at hclass
          by_contra hno
          have hnode : ¬strcasestr s.1 deserializeWord = true := fun hd =>
            hno (strcasestr_serialize hd)
          rw [if_neg hnode, if_neg hno] at hclass
          rcases hclass with hc | hc <;> cases hc
        exact (h hser).resolve_right hkey
    · intro hname hkey
      have hno : ¬strcasestr s.1 serializeWord = true := by
        intro hser
        rcases h hser with h' | h'
        · rw [hname] at h'
          cases h'
        · rw [hkey] at h'
          cases h'
      have hclass : classify s = .CMD := by
        rw [classify_of_not_isKeyword hkey, if_neg fun hd => hno (strcasestr_serialize hd),
          if_neg hno]
      exact ⟨hclass, sent_of_classify hclass⟩

/-- `INSERT INTO serialized VALUES (1)` -/
def insertStatement : CStr :=
  ⟨[73, 78, 83, 69, 82, 84, 32, 73, 78, 84, 79, 32, 115, 101, 114, 105, 97, 108, 105, 122, 101, 100,
    32, 86, 65, 76, 85, 69, 83, 32, 40, 49, 41], by decide⟩

/-- **An insert is taken for a request to serialize**, because of the name of its table. -/
theorem insertStatement_not_routed :
    classify insertStatement = .SERIALIZE ∧ ¬Routed insertStatement :=
  ⟨by decide, fun h => absurd (h.local_only (by decide)) (by decide)⟩

end Mym
