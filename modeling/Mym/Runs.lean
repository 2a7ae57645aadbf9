import Mym.Arguments

/-!
# Runs over the argument array

`mexFunction` of the connection table is handed its arguments in pieces (`Input`) and is told what the
preparation of a query comes to.  `inputOf` and `preparedFor` take both from the argument array, and
`mym_world` says that the two then do the same to the world; so every run over argument arrays is a
run of the connection table (`runMym_eq_run`), and what holds of its runs holds of these.

The arguments are taken to be `Readable`: `getstring` fails on no char array.
-/

namespace Mym

/-- What `Input` keeps of an array. -/
def Platform.text (p : Platform) (v : MxArray) : Option CStr :=
  if v.isChar then p.mxGetString v else none

/-- The char arrays can be copied, and the id, if there is one, can be read. -/
structure Readable (p : Platform) (prhs : List MxArray) (id : IdArg) : Prop where
  id : (idArg prhs).out = .ok id
  strings : ∀ v ∈ prhs, v.isChar = true → ∃ s, p.mxGetString v = some s

def inputOf (p : Platform) (id : IdArg) (nlhs : Nat) (prhs : List MxArray) : Input where
  id := id
  command := prhs[id.jarg]?.map p.text
  args := (prhs.drop (id.jarg + 1)).map p.text
  nlhs := nlhs

/-- The answers, with what the preparation of the query comes to. -/
def preparedFor (p : Platform) (prhs : List MxArray) (jarg : Nat) (a : Answers) : Answers :=
  { a with
    prepared := (prhs[jarg]?.bind p.text).elim a.prepared fun query =>
      (statementAt p prhs jarg query).out >>= fun s => .ok s.1 }

section

variable {p : Platform} {prhs : List MxArray} {id : IdArg}

/-! ### Reading -/

theorem Readable.text_eq_none (h : Readable p prhs id) {v : MxArray} (hv : v ∈ prhs) :
    p.text v = none ↔ ¬v.isChar = true := by
  unfold Platform.text
  refine ⟨?_, ?_⟩
  · intro hnone hchar
    obtain ⟨s, hs⟩ := h.strings v hv hchar
    rw [if_pos hchar, hs] at hnone
    cases hnone
  · intro hchar
    rw [if_neg hchar]

theorem text_eq_some {v : MxArray} {s : CStr} (h : p.text v = some s) :
    v.isChar = true ∧ p.mxGetString v = some s := by
  unfold Platform.text at h
  split at h
  · next hchar => exact ⟨hchar, h⟩
  · cases h

theorem argString_text {k : Nat} {v : MxArray} {s : CStr} (hk : prhs[k]? = some v)
    (hs : p.text v = some s) : (argString p prhs k).out = .ok s := by
  obtain ⟨hlt, rfl⟩ := List.getElem?_eq_some_iff.mp hk
  rw [argString_out p hlt, getstring_of_mem (text_eq_some hs).2]

/-- The check that all arguments are strings. -/
theorem checkStrings_out {j n : Nat} (h : j + n = prhs.length) :
    (checkStrings prhs j n).out
      = if (prhs.drop j).all MxArray.isChar then .ok () else .raised .argsNotStrings := by
  induction n generalizing j with
  | zero =>
    have hnil : prhs.drop j = [] := List.drop_eq_nil_of_le (Nat.le_of_eq h.symm)
    rw [hnil]
    rfl
  | succ n ih =>
    have hj : j < prhs.length := by omega
    rw [checkStrings, Indexed.out_bind, Indexed.out_get, readEntry_of_lt hj, Outcome.ok_bind,
      List.drop_eq_getElem_cons hj, List.all_cons]
    by_cases hchar : prhs[j].isChar = true
    · rw [if_pos hchar, ih (by omega), hchar, Bool.true_and]
    · rw [if_neg hchar, Bool.eq_false_of_not_eq_true hchar, Bool.false_and]
      rfl

/-- The arguments behind the command, when all are strings. -/
def AllText (p : Platform) (prhs : List MxArray) (jarg : Nat) : Prop :=
  ∀ v ∈ prhs.drop (jarg + 1), ∃ s, p.text v = some s

theorem optionalString_text {jarg : Nat} (h : AllText p prhs jarg) (k : Nat) :
    (optionalString p prhs jarg (k + 1)).out
      = .ok (((prhs.drop (jarg + 1)).map p.text)[k]?.getD none) := by
  have hget : (prhs.drop (jarg + 1))[k]? = prhs[jarg + (k + 1)]? := by
    rw [List.getElem?_drop]
    congr 1
    omega
  rw [optionalString, List.getElem?_map, hget]
  by_cases hk : jarg + (k + 1) + 1 ≤ prhs.length
  · have hsome : prhs[jarg + (k + 1)]? = some prhs[jarg + (k + 1)] := List.getElem?_eq_getElem hk
    rw [hsome] at hget
    obtain ⟨s, hs⟩ := h _ (List.mem_of_getElem? hget)
    rw [if_pos hk, Indexed.out_bind, argString_text hsome hs, hsome, Option.map_some, hs]
    rfl
  · rw [if_neg hk, List.getElem?_eq_none (Nat.not_le.mp hk |> Nat.le_of_lt_succ)]
    rfl

/-! ### Parsing -/

theorem none_mem_args (h : Readable p prhs id) (j : Nat) :
    none ∈ (prhs.drop j).map p.text ↔ ¬(prhs.drop j).all MxArray.isChar = true := by
  rw [List.all_eq_true, List.mem_map]
  refine ⟨?_, ?_⟩
  · rintro ⟨v, hv, hnone⟩ hall
    exact (h.text_eq_none (List.mem_of_mem_drop hv)).mp hnone (hall v hv)
  · intro hall
    obtain ⟨v, hv⟩ := not_forall.mp hall
    obtain ⟨hmem, hchar⟩ := Classical.not_imp.mp hv
    exact ⟨v, hmem, (h.text_eq_none (List.mem_of_mem_drop hmem)).mpr hchar⟩

theorem parseCommand_other {jarg : Nat} {command : MxArray} (h : prhs[jarg]? = some command)
    (hchar : ¬command.isChar = true) :
    (parseCommand p prhs jarg).out = .raised .missingCommand := by
  obtain ⟨hlt, rfl⟩ := List.getElem?_eq_some_iff.mp h
  rw [parseCommand, if_neg (Nat.not_le.mpr hlt), Indexed.out_bind, Indexed.out_get,
    readEntry_of_lt hlt, Outcome.ok_bind, if_neg hchar]
  rfl

theorem parseCommand_absent {jarg : Nat} (h : prhs.length ≤ jarg) :
    (parseCommand p prhs jarg).out = .ok (.STATUS, ⟨[], by simp⟩) := by
  rw [parseCommand, if_pos h]
  rfl

/-- The command is parsed alike. -/
theorem parse_inputOf (h : Readable p prhs id) (w : World) (nlhs : Nat) :
    parse w (inputOf p id nlhs prhs) = connectionId id >>= fun cid =>
      (parseCommand p prhs id.jarg).out >>= fun x =>
        pickSlot w x.1 cid >>= fun i => .ok (x.1, i) := by
  apply Outcome.bind_congr
  intro cid _
  have hcommand : (inputOf p id nlhs prhs).command = prhs[id.jarg]?.map p.text := rfl
  have hargs : none ∈ (inputOf p id nlhs prhs).args ↔
      ¬(prhs.drop (id.jarg + 1)).all MxArray.isChar = true := none_mem_args h (id.jarg + 1)
  by_cases hlt : id.jarg < prhs.length
  · have hsome : prhs[id.jarg]? = some prhs[id.jarg] := List.getElem?_eq_getElem hlt
    have hmem : prhs[id.jarg] ∈ prhs := List.getElem_mem hlt
    rw [hcommand, hsome, Option.map_some]
    by_cases hchar : prhs[id.jarg].isChar = true
    · obtain ⟨query, hquery⟩ := h.strings _ hmem hchar
      have htext : p.text prhs[id.jarg] = some query := by
        rw [Platform.text, if_pos hchar, hquery]
      have hall : (prhs.drop id.jarg).all MxArray.isChar
          = (prhs.drop (id.jarg + 1)).all MxArray.isChar := by
        rw [List.drop_eq_getElem_cons hlt, List.all_cons, hchar, Bool.true_and]
      rw [htext, parseCommand_out p hsome hchar, getstring_of_mem hquery, Outcome.ok_bind,
        checkStrings_out (by omega), hall]
      show (if _ then _ else _ : Result _) = _
      simp only [hargs]
      by_cases hq : classify query ≠ .CMD ∧ classify query ≠ .SERIALIZE ∧ classify query ≠ .DESERIALIZE
      · rw [if_pos hq]
        by_cases hstrings : (prhs.drop (id.jarg + 1)).all MxArray.isChar = true
        · rw [if_neg fun hno => hno.2.2.2 hstrings, if_pos hstrings]
          rfl
        · rw [if_pos ⟨hq.1, hq.2.1, hq.2.2, hstrings⟩, if_neg hstrings]
          rfl
      · rw [if_neg hq, if_neg fun hno => hq ⟨hno.1, hno.2.1, hno.2.2.1⟩]
        rfl
    · rw [(h.text_eq_none hmem).mpr hchar, parseCommand_other hsome hchar]
      rfl
  · have hnone : prhs[id.jarg]? = none := List.getElem?_eq_none (Nat.not_lt.mp hlt)
    have hnil : prhs.drop (id.jarg + 1) = [] := List.drop_eq_nil_of_le (by omega)
    rw [hcommand, hnone, parseCommand_absent (Nat.not_lt.mp hlt)]
    show (if _ then _ else _ : Result _) = _
    simp only [hargs]
    rw [hnil]
    rfl

/-- What an accepted command is. -/
theorem parseCommand_ok (h : Readable p prhs id) {q : QueryType} {query : CStr}
    (hout : (parseCommand p prhs id.jarg).out = .ok (q, query)) :
    q = .STATUS ∨ ∃ command, prhs[id.jarg]? = some command ∧ p.text command = some query ∧
      (q ≠ .CMD ∧ q ≠ .SERIALIZE ∧ q ≠ .DESERIALIZE → AllText p prhs id.jarg) := by
  by_cases hlt : id.jarg < prhs.length
  · have hsome : prhs[id.jarg]? = some prhs[id.jarg] := List.getElem?_eq_getElem hlt
    refine Or.inr ⟨_, hsome, ?_⟩
    by_cases hchar : prhs[id.jarg].isChar = true
    · rw [parseCommand_out p hsome hchar] at hout
      obtain ⟨query', hget, hout⟩ := Outcome.bind_eq_ok hout
      have htext : p.text prhs[id.jarg] = some query' := by
        rw [Platform.text, if_pos hchar, Option.mem_def.mp (getstring_eq_ok hget)]
      split at hout
      · obtain ⟨u, hcheck, hout⟩ := Outcome.bind_eq_ok hout
        cases hout
        refine ⟨htext, fun _ v hv => ?_⟩
        rw [checkStrings_out (by omega), List.drop_eq_getElem_cons hlt, List.all_cons] at hcheck
        split at hcheck
        · next hall =>
          have hv' := List.all_eq_true.mp (Bool.and_eq_true_iff.mp hall).2 v hv
          obtain ⟨s, hs⟩ := h.strings v (List.mem_of_mem_drop hv) hv'
          exact ⟨s, by rw [Platform.text, if_pos hv', hs]⟩
        · cases hcheck
      · next hq =>
        cases hout
        exact ⟨htext, fun h => absurd h hq⟩
    · rw [parseCommand_other hsome hchar] at hout
      cases hout
  · rw [parseCommand_absent (Nat.not_lt.mp hlt)] at hout
    cases hout
    exact Or.inl rfl

end

/-! ### The branches -/

theorem openWith_ok (w : World) (i : Slot) (nlhs : Nat) (a : Answers)
    (host user pass ssl : Option CStr) (inp : Input) (hssl : inp.args[3]?.getD none = ssl) :
    openWith w i nlhs a (.ok host) (.ok user) (.ok pass) (.ok ssl) = openBranch w i inp a := by
  subst hssl
  rfl

/-- A database that is read is selected, and nothing else is done without one. -/
theorem useWith_world (w : World) (i : Slot) (query : CStr) (inp : Input) (a : Answers)
    {db : Result Bytes} (h : (∃ x, db = .ok x) ↔ ∃ x, database query inp = .ok x) :
    (useWith w i a db).1 = (useBranch w i query inp a).1 := by
  unfold useWith useBranch
  split
  · unfold World.pinged
    dsimp only
    split
    · cases hdb : db with
      | ok x =>
        obtain ⟨y, hy⟩ := h.mp ⟨x, hdb⟩
        rw [hy]
      | _ =>
        cases hdata : database query inp with
        | ok y =>
          obtain ⟨x, hx⟩ := h.mpr ⟨y, hdata⟩
          rw [hdb] at hx
          cases hx
        | _ => rfl
    · rfl
  · rfl

section

variable {p : Platform} {prhs : List MxArray} {id : IdArg}

/-- The database of `use` is read if there is one. -/
theorem databaseArg_ok {command : MxArray} (hcommand : prhs[id.jarg]? = some command)
    (htext : AllText p prhs id.jarg) (query : CStr) (nlhs : Nat) :
    (∃ x, (databaseArg p prhs id.jarg query).out = .ok x) ↔
      ∃ x, database query (inputOf p id nlhs prhs) = .ok x := by
  obtain ⟨hlt, rfl⟩ := List.getElem?_eq_some_iff.mp hcommand
  have hcount : (if (inputOf p id nlhs prhs).id.isAbsent then 0 else 1) + 1
      + (inputOf p id nlhs prhs).args.length = prhs.length := by
    show id.jarg + 1 + ((prhs.drop (id.jarg + 1)).map p.text).length = prhs.length
    rw [List.length_map, List.length_drop]
    omega
  unfold databaseArg database
  dsimp only
  rw [hcount]
  split
  · split
    · have hargs : (inputOf p id nlhs prhs).args = (prhs.drop (id.jarg + 1)).map p.text := rfl
      rw [hargs]
      by_cases hnext : id.jarg + 1 < prhs.length
      · obtain ⟨s, hs⟩ := htext _ (by rw [List.drop_eq_getElem_cons hnext]; exact List.mem_cons_self)
        rw [Indexed.out_bind, argString_text (List.getElem?_eq_getElem hnext) hs,
          List.drop_eq_getElem_cons hnext, List.map_cons, hs]
        exact iff_of_true ⟨s.1, rfl⟩ ⟨s.1, rfl⟩
      · rw [List.drop_eq_nil_of_le (Nat.not_lt.mp hnext), Indexed.out_bind, argString,
          Indexed.out_bind, Indexed.out_get, readEntry, List.getElem?_eq_none (Nat.not_lt.mp hnext)]
        refine ⟨?_, ?_⟩
        · rintro ⟨x, hx⟩
          cases hx
        · rintro ⟨x, hx⟩
          cases hx
    · exact Iff.rfl
  · exact iff_of_true ⟨_, rfl⟩ ⟨_, rfl⟩

/-- **A branch** does the same to the world. -/
theorem perform_world (h : Readable p prhs id) (w : World) (i : Slot) (nlhs : Nat) (a : Answers)
    {q : QueryType} {query : CStr} (hout : (parseCommand p prhs id.jarg).out = .ok (q, query)) :
    (perform p w i id nlhs a (requestOf p prhs id.jarg nlhs query q)).1
      = (branch w q i (inputOf p id nlhs prhs) (preparedFor p prhs id.jarg a)).1 := by
  rcases parseCommand_ok h hout with rfl | ⟨command, hcommand, htext, hall⟩
  · rfl
  have hinput : (inputOf p id nlhs prhs).command = some (some query) := by
    show prhs[id.jarg]?.map p.text = _
    rw [hcommand, Option.map_some, htext]
  cases q with
  | OPEN =>
    have hopt := optionalString_text (hall (by decide))
    show (openWith w i nlhs a _ _ _ _).1 = (openBranch w i _ _).1
    rw [hopt 0, hopt 1, hopt 2, hopt 3]
    exact congrArg Prod.fst (openWith_ok w i nlhs a _ _ _ _ (inputOf p id nlhs prhs) rfl)
  | USE =>
    have hdb := databaseArg_ok hcommand (hall (by decide)) query nlhs
    show (useWith w i a _).1 = (branch w .USE i _ _).1
    rw [branch, hinput]
    exact useWith_world w i query _ _ hdb
  | CMD =>
    have hprepared : preparedFor p prhs id.jarg a
        = { a with prepared := (statementAt p prhs id.jarg query).out >>= fun s => .ok s.1 } := by
      rw [preparedFor, hcommand, Option.bind_some, htext]
      rfl
    rw [hprepared]
    rfl
  | _ => rfl

/-- **The argument array does to the world what its pieces do.** -/
theorem mym_world (h : Readable p prhs id) (w : World) (nlhs : Nat) (a : Answers) :
    (mym p w nlhs prhs a).1
      = (mexFunction w (inputOf p id nlhs prhs) (preparedFor p prhs id.jarg a)).1 := by
  have hid : (parseId prhs).out = connectionId id >>= fun cid => .ok (id, cid) := by
    rw [parseId, Indexed.out_bind, h.id, Outcome.ok_bind, Indexed.out_bind]
    rfl
  rw [mym, mexFunction, hid, parse_inputOf h]
  cases connectionId id with
  | ok cid =>
    simp only [Outcome.ok_bind]
    rw [commandBranch]
    cases hout : (parseCommand p prhs id.jarg).out with
    | ok x =>
      simp only [Outcome.ok_bind]
      cases pickSlot w x.1 cid with
      | ok i => exact perform_world h w i nlhs a hout
      | _ => rfl
    | _ => rfl
  | _ => rfl

end

/-! ### Runs -/

/-- A call of `mym` with what the surroundings answer. -/
structure Call where
  nlhs : Nat
  prhs : List MxArray
  answers : Answers

/-- The world after a list of calls, the newest first. -/
def runMym (p : Platform) : List Call → World
  | [] => World.start
  | c :: older => (mym p (runMym p older) c.nlhs c.prhs c.answers).1

/-- **Every run over argument arrays is a run of the connection table**, call by call. -/
theorem runMym_eq_run (p : Platform) {cs : List Call} (h : ∀ c ∈ cs, ∃ id, Readable p c.prhs id) :
    ∃ steps : List (Input × Answers), steps.length = cs.length ∧ runMym p cs = run steps := by
  induction cs with
  | nil => exact ⟨[], rfl, rfl⟩
  | cons c cs ih =>
    obtain ⟨steps, hlen, hrun⟩ := ih fun d hd => h d (List.mem_cons_of_mem c hd)
    obtain ⟨id, hid⟩ := h c List.mem_cons_self
    refine ⟨(inputOf p id c.nlhs c.prhs, preparedFor p c.prhs id.jarg c.answers) :: steps,
      by rw [List.length_cons, List.length_cons, hlen], ?_⟩
    rw [runMym, run, hrun]
    exact mym_world hid _ _ _

end Mym
