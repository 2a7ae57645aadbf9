import Mym.ConnectionTable

/-!
# Results that are left on a connection

A query that is accepted has one result or several, `mysql_store_result` takes one of them,
and as long as some are `pending` the client refuses everything else on the connection
(`ServerUp`).  The query branch takes one result and no more.  So a connection stays usable
(`KeepsUsable`) as long as every query has a single result, and no longer
(`keepsUsable_iff`): after a query with two, the next ping fails and the slot of a
connection that is alive is marked closed.
-/

namespace Mym

/-- The results of the last accepted query that have not been taken from the handle `h`. -/
def pending (h : Handle) : List Entry → Nat
  | [] => 0
  | .call _ conn (.query _ results) :: older =>
    if conn = some h ∧ results ≠ 0 then results else pending h older
  | .call _ conn .storeResult :: older =>
    if conn = some h then pending h older - 1 else pending h older
  | .call _ _ (.init (some h')) :: older => if h' = h then 0 else pending h older
  | .call _ conn .close :: older => if conn = some h then 0 else pending h older
  | _ :: older => pending h older

/-- How a server that stays up answers: a ping and a stat succeed unless results are pending, and
nothing is accepted while they are. -/
def Answered (older : List Entry) : Entry → Prop
  | .call _ (some h) (.ping ok) => ok = true ↔ pending h older = 0
  | .call _ (some h) (.stat ok) => ok = true ↔ pending h older = 0
  | .call _ (some h) (.selectDb true) => pending h older = 0
  | .call _ (some h) (.query _ results) => results ≠ 0 → pending h older = 0
  | _ => True

abbrev ServerUp : List Entry → Prop := Throughout Answered

/-- A query with more than one result. -/
def Excess : Entry → Prop
  | .call _ _ (.query _ results) => 2 ≤ results
  | _ => False

def SingleResults (log : List Entry) : Prop := ∀ e ∈ log, ¬Excess e

/-- After every command of the run nothing is pending on any slot, every ping succeeded, and a slot
that has been opened stays open until it is told otherwise. -/
structure KeepsUsable (steps : List (Input × Answers)) : Prop where
  drained : ∀ older, older <:+ steps → ∀ i h,
    ((run older).c i).conn = some h → pending h (run older).log = 0
  checked : ∀ e ∈ (run steps).log, ∀ i, ¬FailedCheck i e
  stays_open : ∀ i, Since (· = .success i) (Takes i) (run steps).log →
    ((run steps).c i).isopen = true

/-! ### The log -/

theorem SingleResults.of_suffix {l l' : List Entry} (h : SingleResults l') (hs : l <:+ l') :
    SingleResults l := fun e he => h e (hs.subset he)

theorem SingleResults.cons {e : Entry} {log : List Entry} (he : ¬Excess e)
    (h : SingleResults log) : SingleResults (e :: log) := by
  intro x hx
  rcases List.mem_cons.mp hx with rfl | hx
  · exact he
  · exact h x hx

theorem SlotStep.suffix {q : QueryType} {i : Slot} {w w' : World} (h : SlotStep q i w w') :
    w.log <:+ w'.log := by
  obtain ⟨-, new, hlog, -⟩ := h.onlySlot
  exact ⟨new, hlog.symm⟩

theorem pending_of_isPlain {fn : ClientFn} (hfn : fn.isPlain = true) (i : Slot)
    (conn : Option Handle) (h : Handle) (log : List Entry) :
    pending h (.call i conn fn :: log) = pending h log := by
  cases fn with
  | query stmt results =>
    cases results with
    | zero => exact if_neg fun hor => hor.2 rfl
    | succ n => cases hfn
  | init res => cases hfn
  | storeResult => cases hfn
  | close => cases hfn
  | _ => rfl

theorem not_excess_of_isPlain {fn : ClientFn} (hfn : fn.isPlain = true) (i : Slot)
    (conn : Option Handle) : ¬Excess (.call i conn fn) := by
  cases fn with
  | query stmt results =>
    cases results with
    | zero => exact Nat.not_succ_le_zero 1
    | succ n => cases hfn
  | _ => exact id

theorem not_failedCheck_of_isPlain {fn : ClientFn} (hfn : fn.isPlain = true) (i j : Slot)
    (conn : Option Handle) : ¬FailedCheck j (.call i conn fn) :=
  fun h => not_clears_of_isPlain hfn i j conn (clears_iff.mpr (Or.inr h))

/-- The one result that is taken leaves the others. -/
theorem pending_fetched (w : World) (i : Slot) (stmt : Bytes) {results : Nat} (hr : results ≠ 0)
    (h : Handle) : pending h ((w.call i (.query stmt results)).call i .storeResult).log
      = if (w.c i).conn = some h then results - 1 else pending h w.log := by
  show (if (w.c i).conn = some h then pending h (w.call i (.query stmt results)).log - 1
    else pending h (w.call i (.query stmt results)).log) = _
  have hquery : pending h (w.call i (.query stmt results)).log
      = if (w.c i).conn = some h ∧ results ≠ 0 then results else pending h w.log := rfl
  rw [hquery]
  by_cases hc : (w.c i).conn = some h
  · rw [if_pos hc, if_pos hc, if_pos ⟨hc, hr⟩]
  · rw [if_neg hc, if_neg hc, if_neg fun hand => hc hand.1]

/-! ### One result each -/

/-- Nothing is pending, and no check has failed. -/
def Clean (log : List Entry) : Prop := (∀ h, pending h log = 0) ∧ ∀ e ∈ log, ∀ i, ¬FailedCheck i e

theorem Clean.cons {e : Entry} {log : List Entry} (h : Clean log)
    (hp : ∀ h, pending h (e :: log) = pending h log ∨ pending h (e :: log) = 0)
    (he : ∀ i, ¬FailedCheck i e) : Clean (e :: log) := by
  refine ⟨?_, ?_⟩
  · intro h'
    rcases hp h' with heq | heq
    · rw [heq, h.1]
    · exact heq
  · intro x hx
    rcases List.mem_cons.mp hx with rfl | hx
    · exact he
    · exact h.2 x hx

theorem Clean.closeIfOpen {w : World} {i : Slot} (h : Clean w.log) :
    Clean (w.closeIfOpen i).log := by
  cases ho : (w.c i).isopen with
  | false =>
    rw [World.closeIfOpen_of_not ho]
    exact h
  | true =>
    rw [World.closeIfOpen_of_open ho]
    refine h.cons (fun h' => ?_) fun _ => id
    by_cases hc : (w.c i).conn = some h'
    · exact Or.inr (if_pos hc)
    · exact Or.inl (if_neg hc)

theorem Clean.init {w : World} {i : Slot} (h : Clean w.log) (ok : Bool) :
    Clean (w.init i ok).log := by
  rw [World.init_log]
  refine h.cons (fun h' => ?_) fun _ => id
  cases ok with
  | false => exact Or.inl rfl
  | true =>
    by_cases he : (w.c i).conn.getD w.next = h'
    · exact Or.inr (if_pos he)
    · exact Or.inl (if_neg he)

theorem Clean.step {q : QueryType} {i : Slot} {w w' : World} (h : Clean w.log)
    (hs : SlotStep q i w w') (hup : ServerUp w'.log) (hone : SingleResults w'.log) :
    Clean w'.log := by
  cases hs with
  | plain hfn hc =>
    exact h.cons (fun h' => Or.inl (pending_of_isPlain hfn i _ h' w.log))
      (fun j => not_failedCheck_of_isPlain hfn i j _)
  | failed hfn hc =>
    -- nothing was pending, so the check cannot have failed
    obtain ⟨h', hh, -⟩ := hc
    have hanswer := hup.1
    rw [hh] at hanswer
    rcases hfn with rfl | rfl
    · cases hanswer.mpr (h.1 h')
    · cases hanswer.mpr (h.1 h')
  | @fetched hq stmt results hr hc =>
    refine ⟨?_, ?_⟩
    · intro h'
      rw [pending_fetched w i stmt hr, h.1 h', ite_eq_right_iff]
      intro _
      have hle : ¬2 ≤ results := hone (.call i (w.c i).conn (.query stmt results)) (by simp)
      omega
    · intro e he
      rcases List.mem_cons.mp he with rfl | he
      · exact fun _ => id
      · rcases List.mem_cons.mp he with rfl | he
        · exact fun _ => id
        · exact h.2 e he
  | release hq => exact Clean.closeIfOpen (h.cons (fun h' => Or.inl rfl) fun _ => id)
  | attempt hq ok => exact (Clean.closeIfOpen (h.cons (fun h' => Or.inl rfl) fun _ => id)).init ok
  | connect hq hc ho ok =>
    have hconnect : Clean (w.call i (.realConnect true)).log := h.cons (fun h' => Or.inl rfl) fun _ => id
    cases ok with
    | false =>
      obtain ⟨h', hh⟩ := Option.ne_none_iff_exists'.mp hc
      have hanswer := hup.1
      rw [World.call_c, hh] at hanswer
      cases hanswer.mpr (hconnect.1 h')
    | true =>
      have hstat : Clean ((w.call i (.realConnect true)).call i (.stat true)).log :=
        hconnect.cons (fun h' => Or.inl rfl) fun _ => id
      exact hstat.cons (fun h' => Or.inl rfl) fun _ => id

theorem clean_run (steps : List (Input × Answers)) (hup : ServerUp (run steps).log)
    (hone : SingleResults (run steps).log) : Clean (run steps).log := by
  refine run_induction (motive := fun w => ServerUp w.log → SingleResults w.log → Clean w.log)
    (fun _ _ => ⟨fun _ => rfl, fun _ he => by cases he⟩) ?_ steps hup hone
  intro q i w w' _ h ih hup hone
  exact (ih (hup.of_suffix h.suffix) (hone.of_suffix h.suffix)).step h hup hone

/-! ### More results -/

/-- Only a query command sends anything. -/
theorem singleResults_step {q : QueryType} (hq : q ≠ .CMD) {i : Slot} {w w' : World}
    (h : SlotStep q i w w') (hone : SingleResults w.log) : SingleResults w'.log := by
  have hclose : ∀ w : World, SingleResults w.log → SingleResults (w.closeIfOpen i).log := by
    intro w hw
    cases ho : (w.c i).isopen with
    | false =>
      rw [World.closeIfOpen_of_not ho]
      exact hw
    | true =>
      rw [World.closeIfOpen_of_open ho]
      exact hw.cons id
  cases h with
  | plain hfn hc => exact hone.cons (not_excess_of_isPlain hfn i _)
  | failed hfn hc =>
    rcases hfn with rfl | rfl
    · exact hone.cons id
    · exact hone.cons id
  | fetched hcmd stmt hr hc => exact absurd hcmd hq
  | release hq => exact hclose _ (hone.cons id)
  | attempt hq ok => exact (hclose _ (hone.cons id)).cons id
  | connect hq hc ho ok =>
    have hstat : SingleResults ((w.call i (.realConnect true)).call i (.stat ok)).log :=
      (hone.cons id).cons id
    cases ok with
    | false => exact hstat
    | true => exact hstat.cons id

/-- A query command leaves something behind on its slot, if it sends a query with more than one
result. -/
theorem cmd_leaves {i : Slot} {w w' : World} (h : SlotSteps .CMD i w w')
    (hup : ServerUp w'.log) (hone : SingleResults w.log) :
    SingleResults w'.log ∨ ∃ h, (w'.c i).conn = some h ∧ 0 < pending h w'.log := by
  induction h with
  | refl => exact Or.inl hone
  | @tail w₁ w₂ _ hs ih =>
    have ih := ih (hup.of_suffix hs.suffix)
    cases hs with
    | plain hfn hc =>
      rcases ih with hone | ⟨h, hh, hp⟩
      · exact Or.inl (hone.cons (not_excess_of_isPlain hfn i _))
      · exact Or.inr ⟨h, hh, by rw [World.call_log, pending_of_isPlain hfn]; exact hp⟩
    | @failed fn hfn hc =>
      rcases ih with hone | ⟨h, hh, hp⟩
      · rcases hfn with rfl | rfl
        · exact Or.inl (hone.cons id)
        · exact Or.inl (hone.cons id)
      · refine Or.inr ⟨h, by rw [World.drop_c_self]; exact hh, ?_⟩
        rcases hfn with rfl | rfl
        · exact hp
        · exact hp
    | @fetched hq stmt results hr hc =>
      rcases ih with hone | ⟨h, hh, hp⟩
      · by_cases hle : 2 ≤ results
        · obtain ⟨h, hh⟩ := Option.ne_none_iff_exists'.mp hc
          refine Or.inr ⟨h, hh, ?_⟩
          rw [pending_fetched w₁ i stmt hr, if_pos hh]
          omega
        · have hquery : ¬Excess (.call i (w₁.c i).conn (.query stmt results)) := hle
          exact Or.inl ((hone.cons hquery).cons id)
      · -- the client does not accept a query while results are pending
        have hanswer : Answered w₁.log (.call i (w₁.c i).conn (.query stmt results)) := hup.2.1
        rw [hh] at hanswer
        have := hanswer hr
        omega
    | release hq => rcases hq with hq | hq <;> cases hq
    | attempt hq ok => cases hq
    | connect hq hc ho ok => cases hq

theorem run_log_suffix {older steps : List (Input × Answers)} (h : older <:+ steps) :
    (run older).log <:+ (run steps).log := by
  obtain ⟨new, rfl⟩ := h
  induction new with
  | nil => exact List.suffix_refl _
  | cons s new ih =>
    refine ih.trans ?_
    exact mexFunction_induction (motive := fun w => (run (new ++ older)).log <:+ w.log)
      (tableInv_run _) (List.suffix_refl _) fun _ _ _ _ _ hs hw => hw.trans hs.suffix

/-- If nothing is ever left behind, every query had one result. -/
theorem singleResults_run (steps : List (Input × Answers)) (hup : ServerUp (run steps).log)
    (hd : ∀ older, older <:+ steps → ∀ i h,
      ((run older).c i).conn = some h → pending h (run older).log = 0) :
    SingleResults (run steps).log := by
  induction steps with
  | nil => exact fun e he => by cases he
  | cons s older ih =>
    have hsuffix : older <:+ s :: older := List.suffix_cons s older
    have hone := ih (hup.of_suffix (run_log_suffix hsuffix)) fun older' h => hd older' (h.trans hsuffix)
    have hinv := tableInv_run older
    have hnow := hd (s :: older) (List.suffix_refl _)
    show SingleResults (mexFunction (run older) s.1 s.2).1.log
    rw [run] at hup hnow
    by_cases hp : ∃ r, parse (run older) s.1 = .ok r
    · obtain ⟨⟨q, i⟩, hp⟩ := hp
      rw [mexFunction_of_parse hp] at hup hnow ⊢
      by_cases hq : q = .CMD
      · subst hq
        have hall : ¬AllSlots .CMD s.1 := by
          rintro (h | ⟨h, -⟩) <;> cases h
        rcases cmd_leaves (branch_steps hinv hall s.2) hup hone with h | ⟨h, hh, hpos⟩
        · exact h
        · rw [hnow i h hh] at hpos
          exact absurd hpos (Nat.lt_irrefl 0)
      · have hsteps := branch_all_steps hinv hp s.2
        clear hnow hup
        generalize (branch (run older) q i s.1 s.2).1 = w' at hsteps ⊢
        induction hsteps with
        | refl => exact hone
        | tail _ hs ih =>
          obtain ⟨j, hj⟩ := hs
          exact singleResults_step hq hj ih
    · rw [mexFunction_of_not_parse fun r hr => hp ⟨r, hr⟩]
      exact hone

/-- **When queries leave their connections usable.** -/
theorem keepsUsable_iff (steps : List (Input × Answers)) (hup : ServerUp (run steps).log) :
    KeepsUsable steps ↔ SingleResults (run steps).log := by
  refine ⟨?_, ?_⟩
  · exact fun h => singleResults_run steps hup h.drained
  · intro hone
    have hclean := clean_run steps hup hone
    refine ⟨fun older hs i h _ => ?_, hclean.2, fun i hsince => ?_⟩
    · have hlog := run_log_suffix hs
      exact (clean_run older (hup.of_suffix hlog) (hone.of_suffix hlog)).1 h
    · refine (openSpec_run steps i).mpr (hsince.mono fun e he hclears => ?_)
      exact (clears_iff.mp hclears).resolve_right (hclean.2 e he i)

/-! ### Two results -/

/-- One statement, one result. -/
theorem keepsUsable_select :
    KeepsUsable [(command select, allWell select.1 1), (command openCommand, allWell [] 1)] := by
  have hlog : (run [(command select, allWell select.1 1), (command openCommand, allWell [] 1)]).log
      = [.call 0 (some 0) .storeResult, .call 0 (some 0) (.query select.1 1),
        .call 0 (some 0) (.ping true), .success 0, .call 0 (some 0) (.stat true),
        .call 0 (some 0) (.realConnect true), .call 0 (some 0) .options,
        .call 0 none (.init (some 0)), .attempt 0] := by
    decide
  refine (keepsUsable_iff _ ?_).mpr ?_
  · rw [hlog]
    simp [Throughout, Answered, pending]
  · rw [hlog]
    simp [SingleResults, Excess]

/-- `SELECT 1; SELECT 2`, and then a query that finds its connection closed. -/
def twoResults : List (Input × Answers) :=
  [(command select, { allWell select.1 1 with ping := false }),
    (command twoSelects, allWell twoSelects.1 2), (command openCommand, allWell [] 1)]

theorem twoResults_not_usable : ServerUp (run twoResults).log ∧ ¬KeepsUsable twoResults := by
  have hlog : (run twoResults).log
      = [.call 0 (some 0) .error, .call 0 (some 0) (.ping false),
        .call 0 (some 0) .storeResult, .call 0 (some 0) (.query twoSelects.1 2),
        .call 0 (some 0) (.ping true), .success 0, .call 0 (some 0) (.stat true),
        .call 0 (some 0) (.realConnect true), .call 0 (some 0) .options,
        .call 0 none (.init (some 0)), .attempt 0] := by
    decide
  refine ⟨?_, ?_⟩
  · rw [hlog]
    simp [Throughout, Answered, pending]
  · intro h
    refine h.checked (.call 0 (some 0) (.ping false)) ?_ 0 rfl
    rw [hlog]
    exact List.mem_cons_of_mem _ List.mem_cons_self
end Mym
