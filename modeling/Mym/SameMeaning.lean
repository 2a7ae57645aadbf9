import Mym.Arguments

/-!
# A command with an id in front

With the id 0 in front of its arguments a command ought to mean what it means without: the same
branch, the same arguments for the same roles, and the same result (`SameMeaning`).  So every
reading should be `Shifted` by one place.  `sameMeaning_iff` says for which commands it is: `use` and
`deserialize` forget `jarg`.
-/

namespace Mym

/-! ### What is wanted -/

/-- Every index is that of an argument. -/
def Request.Within (n : Nat) : Request → Prop
  | .open host user pass ssl => host.Within n ∧ user.Within n ∧ pass.Within n ∧ ssl.Within n
  | .use db => db.Within n
  | .cmd statement => statement.Within n
  | .serialize cells => cells.Within n
  | .deserialize value => value.Within n
  | .close | .closeAll | .status | .version _ => True

/-- The second request is that of the same branch, and reads one place further on what the first
reads, for the same roles. -/
inductive Request.Shifted : Request → Request → Prop
  | open {host user pass ssl host' user' pass' ssl' : Reading (Option CStr)}
      (hhost : host.Shifted host') (huser : user.Shifted user') (hpass : pass.Shifted pass')
      (hssl : ssl.Shifted ssl') :
      Shifted (.open host user pass ssl) (.open host' user' pass' ssl')
  | close : Shifted .close .close
  | closeAll : Shifted .closeAll .closeAll
  | use {db db' : Reading Bytes} (h : db.Shifted db') : Shifted (.use db) (.use db')
  | cmd {s s' : Reading (Bytes × Bool)} (h : s.Shifted s') : Shifted (.cmd s) (.cmd s')
  | serialize {c c' : Reading (List Bytes)} (h : c.Shifted c') : Shifted (.serialize c) (.serialize c')
  | deserialize {v v' : Reading MxArray} (h : v.Shifted v') :
      Shifted (.deserialize v) (.deserialize v')
  | version (surplus : Bool) : Shifted (.version surplus) (.version surplus)

/-- **The id changes nothing:** with 0 in front of `prhs` the command is read one place further on
and asks for the same; so is every argument, for the same role; every index that is used is that
of an argument; and in every world the command does the same. -/
structure SameMeaning (p : Platform) (nlhs : Nat) (prhs : List MxArray) : Prop where
  command : (parseCommand p prhs 0).Shifted (parseCommand p (zeroId :: prhs) 1)
  roles : ∀ q query, (parseCommand p prhs 0).out = .ok (q, query) →
    (requestOf p prhs 0 nlhs query q).Shifted (requestOf p (zeroId :: prhs) 1 nlhs query q)
  parsed : (parseId prhs).Within prhs.length ∧ (parseCommand p prhs 0).Within prhs.length ∧
    (parseId (zeroId :: prhs)).Within (prhs.length + 1) ∧
    (parseCommand p (zeroId :: prhs) 1).Within (prhs.length + 1)
  inside : ∀ q query, (parseCommand p prhs 0).out = .ok (q, query) →
    (requestOf p prhs 0 nlhs query q).Within prhs.length ∧
    (requestOf p (zeroId :: prhs) 1 nlhs query q).Within (prhs.length + 1)
  effect : ∀ w a, mym p w nlhs (zeroId :: prhs) a = mym p w nlhs prhs a

/-! ### One place further on -/

section

variable (p : Platform) (z : MxArray) (prhs : List MxArray) (jarg : Nat)

theorem shifted_argString {k k' : Nat} (h : k' = k + 1) :
    (argString p prhs k).Shifted (argString p (z :: prhs) k') :=
  (Indexed.shifted_get prhs z h).bind fun _ _ => Indexed.shifted_lift _

theorem shifted_optionalString (k : Nat) :
    (optionalString p prhs jarg k).Shifted (optionalString p (z :: prhs) (jarg + 1) k) := by
  refine .ite ?_ ?_ (Indexed.shifted_pure none)
  · rw [List.length_cons]
    omega
  · exact (shifted_argString p z prhs (Nat.add_right_comm jarg 1 k)).bind fun s _ =>
      Indexed.shifted_pure (some s)

theorem shifted_countFlagsAt (i : Nat) :
    (countFlagsAt p prhs jarg i).Shifted (countFlagsAt p (z :: prhs) (jarg + 1) (i + 1)) := by
  induction i with
  | zero =>
    rw [countFlagsAt, countFlagsAt, if_neg (Nat.not_lt_zero _)]
    exact Indexed.shifted_pure 0
  | succ i ih =>
    rw [countFlagsAt, countFlagsAt]
    refine .ite Nat.add_lt_add_iff_right ?_ (Indexed.shifted_pure 0)
    apply (Indexed.shifted_get prhs z rfl).bind
    intro v _
    refine .ite Iff.rfl ?_ (Indexed.shifted_pure 0)
    apply (shifted_argString p z prhs rfl).bind
    intro s _
    refine .ite Iff.rfl ?_ (Indexed.shifted_pure 0)
    exact ih.bind fun n _ => Indexed.shifted_pure (n + 1)

theorem shifted_entriesAt (s : Scan) (i n : Nat) :
    (entriesAt prhs jarg s i n).Shifted (entriesAt (z :: prhs) (jarg + 1) s i n) := by
  induction n generalizing i with
  | zero => exact Indexed.shifted_pure []
  | succ n ih =>
    have hk : jarg + 1 + i + 1 = jarg + i + 1 + 1 := by omega
    rw [entriesAt, entriesAt]
    apply (Indexed.shifted_get prhs z hk).bind
    intro v _
    refine (Indexed.shifted_lift _).bind fun o _ => (Indexed.shifted_lift _).bind fun c _ => ?_
    cases o with
    | none => exact Indexed.shifted_lift _
    | some o =>
      cases c with
      | none => exact Indexed.shifted_lift _
      | some c => exact (ih (i + 1)).bind fun es _ => Indexed.shifted_pure _

theorem shifted_readFlagsAt {i i' : Nat} (h : i' = i + 1) (n : Nat) :
    (readFlagsAt p prhs i n).Shifted (readFlagsAt p (z :: prhs) i' n) := by
  induction n generalizing i i' with
  | zero => exact Indexed.shifted_pure false
  | succ n ih =>
    rw [readFlagsAt, readFlagsAt]
    apply (shifted_argString p z prhs h).bind
    intro s _
    exact (ih (congrArg (· + 1) h)).bind fun on _ => Indexed.shifted_pure _

theorem expected_cons : (z :: prhs).length - (jarg + 1) - 1 = prhs.length - jarg - 1 := by
  rw [List.length_cons, Nat.add_sub_add_right]

theorem shifted_processAt (query : CStr) (nbFlags : Nat) :
    (processAt p prhs jarg query nbFlags).Shifted
      (processAt p (z :: prhs) (jarg + 1) query nbFlags) := by
  unfold processAt
  dsimp only
  rw [expected_cons]
  refine .ite Iff.rfl (Indexed.shifted_pure _) ?_
  refine (Indexed.shifted_lift _).bind fun s _ => (Indexed.shifted_lift _).bind fun nb _ => ?_
  apply (shifted_entriesAt z prhs jarg s 0 s.nac).bind
  intro es _
  exact (Indexed.shifted_lift _).bind fun q _ => Indexed.shifted_pure _

variable {prhs jarg} in
theorem countFlagsAt_le {i n : Nat} (h : (countFlagsAt p prhs jarg i).out = .ok n) : n ≤ i := by
  induction i generalizing n with
  | zero =>
    cases h
    exact Nat.le_refl 0
  | succ i ih =>
    have hzero : (.ok 0 : Result Nat) = .ok n → n ≤ i + 1 := by
      intro hw
      cases hw
      exact Nat.zero_le _
    rw [countFlagsAt] at h
    split at h
    · rw [Indexed.out_bind] at h
      obtain ⟨v, -, h⟩ := Outcome.bind_eq_ok h
      split at h
      · rw [Indexed.out_bind] at h
        obtain ⟨s, -, h⟩ := Outcome.bind_eq_ok h
        split at h
        · rw [Indexed.out_bind] at h
          obtain ⟨m, hm, h⟩ := Outcome.bind_eq_ok h
          cases h
          exact Nat.succ_le_succ (ih hm)
        · exact hzero h
      · exact hzero h
    · exact hzero h

variable {prhs jarg} in
/-- The flags are arguments. -/
theorem processAt_nbFlags {query : CStr} {nb : Nat} {r : Processed}
    (h : (processAt p prhs jarg query nb).out = .ok r) (hnb : nb ≤ prhs.length) :
    r.nbFlags ≤ prhs.length := by
  unfold processAt at h
  dsimp only at h
  split at h
  · cases h
    exact hnb
  · rw [Indexed.out_bind] at h
    obtain ⟨s, -, h⟩ := Outcome.bind_eq_ok h
    rw [Indexed.out_bind] at h
    obtain ⟨nb', hadjust, h⟩ := Outcome.bind_eq_ok h
    rw [Indexed.out_bind] at h
    obtain ⟨es, -, h⟩ := Outcome.bind_eq_ok h
    rw [Indexed.out_bind] at h
    obtain ⟨q, -, h⟩ := Outcome.bind_eq_ok h
    cases h
    show nb' ≤ prhs.length
    rcases adjustFlags_eq_ok hadjust with ⟨-, -, rfl⟩ | ⟨-, rfl⟩
    · omega
    · exact hnb

theorem shifted_statementAt (query : CStr) :
    (statementAt p prhs jarg query).Shifted (statementAt p (z :: prhs) (jarg + 1) query) := by
  apply (shifted_countFlagsAt p z prhs jarg prhs.length).bind
  intro nb hnb
  apply (shifted_processAt p z prhs jarg query nb).bind
  intro r hr
  apply (Indexed.shifted_lift _).bind
  intro text _
  -- the flags start one place further on, as there are no more of them than arguments
  have hle := processAt_nbFlags p hr (countFlagsAt_le p hnb)
  have hstart : (z :: prhs).length - r.nbFlags = prhs.length - r.nbFlags + 1 := by
    rw [List.length_cons]
    omega
  have hcount : (z :: prhs).length - (prhs.length - r.nbFlags + 1)
      = prhs.length - (prhs.length - r.nbFlags) := by
    rw [List.length_cons, Nat.add_sub_add_right]
  rw [hstart, hcount]
  exact (shifted_readFlagsAt p z prhs rfl _).bind fun on _ => Indexed.shifted_pure _

theorem shifted_serializeCellsAt (query : CStr) :
    (serializeCellsAt p prhs jarg query).Shifted
      (serializeCellsAt p (z :: prhs) (jarg + 1) query) := by
  unfold serializeCellsAt
  dsimp only
  rw [expected_cons]
  refine .ite Iff.rfl (Indexed.shifted_pure _) ?_
  apply (Indexed.shifted_lift _).bind
  intro s _
  refine .ite Iff.rfl (Indexed.shifted_lift _) ?_
  exact (shifted_entriesAt z prhs jarg s 0 s.nac).bind fun es _ => Indexed.shifted_lift _

theorem shifted_checkStrings {j j' : Nat} (h : j' = j + 1) (n : Nat) :
    (checkStrings prhs j n).Shifted (checkStrings (z :: prhs) j' n) := by
  induction n generalizing j j' with
  | zero => exact Indexed.shifted_pure ()
  | succ n ih =>
    rw [checkStrings, checkStrings]
    apply (Indexed.shifted_get prhs z h).bind
    intro v _
    exact .ite Iff.rfl (ih (congrArg (· + 1) h)) (Indexed.shifted_lift _)

theorem shifted_parseCommand :
    (parseCommand p prhs jarg).Shifted (parseCommand p (z :: prhs) (jarg + 1)) := by
  unfold parseCommand
  refine .ite ?_ (Indexed.shifted_pure _) ?_
  · rw [List.length_cons]
    exact Nat.add_le_add_iff_right
  apply (Indexed.shifted_get prhs z rfl).bind
  intro v _
  refine .ite Iff.rfl ?_ (Indexed.shifted_lift _)
  apply (shifted_argString p z prhs rfl).bind
  intro query _
  refine .ite Iff.rfl ?_ (Indexed.shifted_pure _)
  rw [List.length_cons, Nat.add_sub_add_right]
  exact (shifted_checkStrings z prhs rfl _).bind fun _ _ => Indexed.shifted_pure _

end

/-! ### Inside the arguments -/

section

variable (p : Platform) {prhs : List MxArray} {jarg : Nat}

theorem within_argString {k : Nat} (h : k < prhs.length) :
    (argString p prhs k).Within prhs.length :=
  (Indexed.within_get prhs h).bind fun _ _ => Indexed.within_lift _ _

theorem within_optionalString (k : Nat) : (optionalString p prhs jarg k).Within prhs.length :=
  .ite (fun h => (within_argString p h).bind fun _ _ => Indexed.within_pure _ _)
    fun _ => Indexed.within_pure _ _

theorem within_countFlagsAt {i : Nat} (h : i ≤ prhs.length) :
    (countFlagsAt p prhs jarg i).Within prhs.length := by
  induction i with
  | zero => exact Indexed.within_pure _ 0
  | succ i ih =>
    rw [countFlagsAt]
    refine .ite (fun _ => ?_) fun _ => Indexed.within_pure _ 0
    apply (Indexed.within_get prhs h).bind
    intro v _
    refine .ite (fun _ => ?_) fun _ => Indexed.within_pure _ 0
    apply (within_argString p h).bind
    intro s _
    refine .ite (fun _ => ?_) fun _ => Indexed.within_pure _ 0
    exact (ih (Nat.le_of_succ_le h)).bind fun n _ => Indexed.within_pure _ _

theorem within_entriesAt (s : Scan) {i n : Nat} (h : jarg + i + n < prhs.length) :
    (entriesAt prhs jarg s i n).Within prhs.length := by
  induction n generalizing i with
  | zero => exact Indexed.within_pure _ []
  | succ n ih =>
    have hk : jarg + i + 1 < prhs.length := by omega
    have hrest : jarg + (i + 1) + n < prhs.length := by omega
    rw [entriesAt]
    apply (Indexed.within_get prhs hk).bind
    intro v _
    refine (Indexed.within_lift _ _).bind fun o _ => (Indexed.within_lift _ _).bind fun c _ => ?_
    cases o with
    | none => exact Indexed.within_lift _ _
    | some o =>
      cases c with
      | none => exact Indexed.within_lift _ _
      | some c => exact (ih hrest).bind fun es _ => Indexed.within_pure _ _

theorem within_readFlagsAt {i n : Nat} (h : i + n ≤ prhs.length) :
    (readFlagsAt p prhs i n).Within prhs.length := by
  induction n generalizing i with
  | zero => exact Indexed.within_pure _ false
  | succ n ih =>
    rw [readFlagsAt]
    apply (within_argString p (by omega)).bind
    intro s _
    exact (ih (by omega)).bind fun on _ => Indexed.within_pure _ _

/-- There is an argument for every placeholder that is counted. -/
theorem within_processAt (query : CStr) (nb : Nat) :
    (processAt p prhs jarg query nb).Within prhs.length := by
  refine .ite (fun _ => Indexed.within_pure _ _) fun hne => ?_
  refine (Indexed.within_lift _ _).bind fun s _ => (Indexed.within_lift _ _).bind fun nb' hadjust => ?_
  have hnac : s.nac ≤ prhs.length - jarg - 1 := by
    rcases adjustFlags_eq_ok hadjust with ⟨hlt, -⟩ | ⟨heq, -⟩
    · exact Nat.le_of_lt hlt
    · exact Nat.le_of_eq heq
  apply (within_entriesAt s (by omega)).bind
  intro es _
  exact (Indexed.within_lift _ _).bind fun q _ => Indexed.within_pure _ _

theorem within_statementAt (query : CStr) : (statementAt p prhs jarg query).Within prhs.length := by
  apply (within_countFlagsAt p (Nat.le_refl _)).bind
  intro nb _
  refine (within_processAt p query nb).bind fun r _ => (Indexed.within_lift _ _).bind fun text _ => ?_
  exact (within_readFlagsAt p (by omega)).bind fun on _ => Indexed.within_pure _ _

theorem within_serializeCellsAt (query : CStr) :
    (serializeCellsAt p prhs jarg query).Within prhs.length := by
  refine .ite (fun _ => Indexed.within_pure _ _) fun hne => ?_
  apply (Indexed.within_lift _ _).bind
  intro s _
  refine .ite (fun _ => Indexed.within_lift _ _) fun hnac => ?_
  exact (within_entriesAt s (by omega)).bind fun es _ => Indexed.within_lift _ _

theorem within_databaseArg (query : CStr)
    (h : strcaseEq query.1 useWord = true → 2 ≤ prhs.length → jarg + 1 < prhs.length) :
    (databaseArg p prhs jarg query).Within prhs.length :=
  .ite (fun hbare => .ite
      (fun hle => (within_argString p (h hbare hle)).bind fun _ _ => Indexed.within_pure _ _)
      fun _ => Indexed.within_lift _ _)
    fun _ => Indexed.within_pure _ _

theorem within_deserializeArg (nlhs : Nat) : (deserializeArg prhs nlhs).Within prhs.length :=
  .ite (fun h => Indexed.within_get prhs (by omega)) fun _ => Indexed.within_lift _ _

theorem within_checkStrings {j n : Nat} (h : j + n ≤ prhs.length) :
    (checkStrings prhs j n).Within prhs.length := by
  induction n generalizing j with
  | zero => exact Indexed.within_pure _ ()
  | succ n ih =>
    rw [checkStrings]
    apply (Indexed.within_get prhs (by omega)).bind
    intro v _
    exact .ite (fun _ => ih (by omega)) fun _ => Indexed.within_lift _ _

theorem within_parseCommand : (parseCommand p prhs jarg).Within prhs.length := by
  refine .ite (fun _ => Indexed.within_pure _ _) fun hlt => ?_
  apply (Indexed.within_get prhs (Nat.not_le.mp hlt)).bind
  intro v _
  refine .ite (fun _ => ?_) fun _ => Indexed.within_lift _ _
  apply (within_argString p (Nat.not_le.mp hlt)).bind
  intro query _
  refine .ite (fun _ => ?_) fun _ => Indexed.within_pure _ _
  exact (within_checkStrings (by omega)).bind fun _ _ => Indexed.within_pure _ _

theorem within_parseId : (parseId prhs).Within prhs.length := by
  refine .bind ?_ fun id _ => (Indexed.within_lift _ _).bind fun cid _ => Indexed.within_pure _ _
  refine .ite (fun _ => Indexed.within_pure _ _) fun hne => ?_
  apply (Indexed.within_get prhs (Nat.pos_of_ne_zero hne)).bind
  intro v _
  exact .ite (fun _ => Indexed.within_lift _ _) fun _ => Indexed.within_pure _ _

end

/-! ### The id itself -/

section

variable (p : Platform) {command : MxArray} (args : List MxArray)

theorem parseId_command (hchar : command.isChar = true) :
    (parseId (command :: args)).out = .ok (.absent, some 0) := by
  have hclass := MxArray.isChar_iff.mp hchar
  have hnum : ¬command.isNumeric = true := by
    rw [MxArray.isNumeric, hclass]
    decide
  have hget : (Indexed.get (ε := MexError) (command :: args) 0).out = .ok command := rfl
  rw [parseId, Indexed.out_bind, idArg, if_neg (by simp), Indexed.out_bind, hget, Outcome.ok_bind,
    if_neg hnum]
  rfl

theorem parseId_zero (prhs : List MxArray) :
    (parseId (zeroId :: prhs)).out = .ok (.number 0, some 0) := by
  have hget : (Indexed.get (ε := MexError) (zeroId :: prhs) 0).out = .ok zeroId := rfl
  rw [parseId, Indexed.out_bind, idArg, if_neg (by simp), Indexed.out_bind, hget]
  rfl

end

/-! ### The two commands that forget the id -/

section

variable (p : Platform) (z command : MxArray) (args : List MxArray)

theorem shifted_databaseArg_iff (query : CStr) :
    (databaseArg p (command :: args) 0 query).Shifted (databaseArg p (z :: command :: args) 1 query) ↔
      ¬(strcaseEq query.1 useWord = true ∧ args = []) := by
  refine ⟨?_, ?_⟩
  · rintro h ⟨hbare, rfl⟩
    have hmem : 2 ∈ (databaseArg p [z, command] 1 query).used := by
      rw [databaseArg, if_pos hbare, if_pos (by simp)]
      exact Indexed.mem_used_bind.mpr (Or.inl (Indexed.mem_used_bind.mpr (Or.inl List.mem_cons_self)))
    have hnone : (databaseArg p [command] 0 query).used = [] := by
      rw [databaseArg, if_pos hbare]
      rfl
    rw [h.used, hnone] at hmem
    cases hmem
  · intro h
    unfold databaseArg
    by_cases hbare : strcaseEq query.1 useWord = true
    · rw [if_pos hbare, if_pos hbare]
      have hargs : 1 ≤ args.length := List.length_pos_iff.mpr fun hnil => h ⟨hbare, hnil⟩
      refine .ite ?_ ?_ (Indexed.shifted_lift _)
      · simp only [List.length_cons]
        omega
      · exact (shifted_argString p z _ rfl).bind fun db _ => Indexed.shifted_pure _
    · rw [if_neg hbare, if_neg hbare]
      exact Indexed.shifted_pure _

theorem shifted_deserializeArg_iff (nlhs : Nat) :
    (deserializeArg (command :: args) nlhs).Shifted (deserializeArg (z :: command :: args) nlhs) ↔
      ¬(nlhs = 1 ∧ args.length ≤ 1) := by
  unfold deserializeArg
  simp only [List.length_cons]
  refine ⟨?_, ?_⟩
  · rintro h ⟨rfl, hle⟩
    have hused := h.used
    by_cases hone : args.length = 1
    · rw [if_neg (by omega), if_pos ⟨rfl, by omega⟩] at hused
      cases hused
    · rw [if_pos ⟨rfl, by omega⟩, if_neg (by omega)] at hused
      cases hused
  · intro h
    rw [if_neg (by omega), if_neg (by omega)]
    exact Indexed.shifted_lift _

theorem shifted_requestOf (nlhs : Nat) (query : CStr) {q : QueryType} (hstatus : q ≠ .STATUS)
    (huse : ¬(strcaseEq query.1 useWord = true ∧ args = []))
    (hdeser : ¬(q = .DESERIALIZE ∧ nlhs = 1 ∧ args.length ≤ 1)) :
    (requestOf p (command :: args) 0 nlhs query q).Shifted
      (requestOf p (z :: command :: args) 1 nlhs query q) := by
  have hopt := shifted_optionalString p z (command :: args) 0
  cases q with
  | OPEN => exact .open (hopt 1) (hopt 2) (hopt 3) (hopt 4)
  | CLOSE => exact .close
  | CLOSE_ALL => exact .closeAll
  | USE => exact .use ((shifted_databaseArg_iff p z command args query).mpr huse)
  | STATUS => exact absurd rfl hstatus
  | CMD => exact .cmd (shifted_statementAt p z (command :: args) 0 query)
  | SERIALIZE => exact .serialize (shifted_serializeCellsAt p z (command :: args) 0 query)
  | DESERIALIZE =>
    exact .deserialize ((shifted_deserializeArg_iff z command args nlhs).mpr fun h => hdeser ⟨rfl, h⟩)
  | VERSION =>
    have hlen : decide (1 + 1 < (z :: command :: args).length)
        = decide (0 + 1 < (command :: args).length) := decide_eq_decide.mpr Nat.add_lt_add_iff_right
    rw [requestOf, requestOf, hlen]
    exact .version _

end

theorem within_requestOf (p : Platform) {prhs : List MxArray} {jarg : Nat} (nlhs : Nat) (query : CStr)
    (q : QueryType)
    (huse : strcaseEq query.1 useWord = true → 2 ≤ prhs.length → jarg + 1 < prhs.length) :
    (requestOf p prhs jarg nlhs query q).Within prhs.length := by
  cases q with
  | OPEN =>
    exact ⟨within_optionalString p 1, within_optionalString p 2, within_optionalString p 3,
      within_optionalString p 4⟩
  | USE => exact within_databaseArg p query huse
  | CMD => exact within_statementAt p query
  | SERIALIZE => exact within_serializeCellsAt p query
  | DESERIALIZE => exact within_deserializeArg nlhs
  | _ => exact trivial

/-- What is read alike leads to the same. -/
theorem Request.Shifted.perform_eq {r r' : Request} (h : r.Shifted r') (p : Platform) (w : World)
    (i : Slot) (id id' : IdArg) (nlhs : Nat) (a : Answers) :
    perform p w i id' nlhs a r' = perform p w i id nlhs a r := by
  cases h with
  | «open» hhost huser hpass hssl => simp only [perform, hhost.out, huser.out, hpass.out, hssl.out]
  | use h => simp only [perform, h.out]
  | cmd h => simp only [perform, h.out]
  | serialize h => simp only [perform, h.out]
  | deserialize h => simp only [perform, h.out]
  | _ => rfl

theorem mym_zeroId {p : Platform} {nlhs : Nat} {command : MxArray} {args : List MxArray}
    (hchar : command.isChar = true)
    (hroles : ∀ q query, (parseCommand p (command :: args) 0).out = .ok (q, query) →
      (requestOf p (command :: args) 0 nlhs query q).Shifted
        (requestOf p (zeroId :: command :: args) 1 nlhs query q)) (w : World) (a : Answers) :
    mym p w nlhs (zeroId :: command :: args) a = mym p w nlhs (command :: args) a := by
  rw [mym, mym, parseId_zero, parseId_command args hchar]
  dsimp only
  have hcommand : (parseCommand p (zeroId :: command :: args) (IdArg.number 0).jarg).out
      = (parseCommand p (command :: args) IdArg.absent.jarg).out :=
    (shifted_parseCommand p zeroId (command :: args) 0).out
  rw [commandBranch, commandBranch, hcommand]
  cases hout : (parseCommand p (command :: args) IdArg.absent.jarg).out with
  | ok r => exact (hroles r.1 r.2 hout).perform_eq p w 0 _ _ nlhs a
  | _ => rfl

/-- `use` in any case is no other keyword. -/
theorem classify_useWord {query : CStr} (h : strcaseEq query.1 useWord = true) :
    classify query = .USE := by
  have hlower : query.1.map toLower = useWord.map toLower := beq_iff_eq.mp h
  have hne : ∀ {t : Bytes}, t.map toLower ≠ useWord.map toLower → ¬strcaseEq query.1 t = true :=
    fun ht heq => ht ((beq_iff_eq.mp heq).symm.trans hlower)
  rw [classify, if_neg (hne (by decide)), if_neg (hne (by decide)), if_neg (hne (by decide)),
    if_pos (Bool.or_eq_true_iff.mpr (Or.inl h))]

/-! ### What is parsed -/

section

variable {p : Platform} {command : MxArray} {args : List MxArray} {query : CStr}

theorem parseCommand_query (hchar : command.isChar = true) {q : QueryType}
    (hout : (parseCommand p (command :: args) 0).out = .ok (q, query)) :
    query ∈ p.mxGetString command ∧ q = classify query := by
  rw [parseCommand_out p rfl hchar] at hout
  obtain ⟨query', hget, hout⟩ := Outcome.bind_eq_ok hout
  have hquery := getstring_eq_ok hget
  split at hout
  · obtain ⟨-, -, hout⟩ := Outcome.bind_eq_ok hout
    cases hout
    exact ⟨hquery, rfl⟩
  · cases hout
    exact ⟨hquery, rfl⟩

theorem parseCommand_bareUse (hchar : command.isChar = true) (hquery : query ∈ p.mxGetString command)
    (hbare : strcaseEq query.1 useWord = true) :
    (parseCommand p [command] 0).out = .ok (.USE, query) := by
  have hcheck : (checkStrings [command] 0 1).out = .ok () := by
    have hget : (Indexed.get (ε := MexError) [command] 0).out = .ok command := rfl
    rw [checkStrings, Indexed.out_bind, hget, Outcome.ok_bind, if_pos hchar]
    rfl
  rw [parseCommand_out p rfl hchar, getstring_of_mem hquery, Outcome.ok_bind, classify_useWord hbare,
    if_pos (by decide)]
  show ((checkStrings [command] 0 1).out >>= _) = _
  rw [hcheck, Outcome.ok_bind]

theorem parseCommand_deserialize (hchar : command.isChar = true)
    (hquery : query ∈ p.mxGetString command) (hdeser : classify query = .DESERIALIZE) :
    (parseCommand p (command :: args) 0).out = .ok (.DESERIALIZE, query) := by
  rw [parseCommand_out p rfl hchar, getstring_of_mem hquery, Outcome.ok_bind, hdeser,
    if_neg (by decide)]

end

/-- **When an id changes nothing:** unless `use` is given no database, or `deserialize` asked for one
value from at most one argument. -/
theorem sameMeaning_iff (p : Platform) (nlhs : Nat) {command : MxArray} (hchar : command.isChar = true)
    (hstatus : ∀ query ∈ p.mxGetString command, classify query ≠ .STATUS) (args : List MxArray) :
    SameMeaning p nlhs (command :: args) ↔ ∀ query ∈ p.mxGetString command,
      ¬(strcaseEq query.1 useWord = true ∧ args = []) ∧
        ¬(classify query = .DESERIALIZE ∧ nlhs = 1 ∧ args.length ≤ 1) := by
  refine ⟨?_, ?_⟩
  · intro h query hquery
    refine ⟨?_, ?_⟩
    · intro hw
      obtain ⟨hbare, rfl⟩ := hw
      cases h.roles _ _ (parseCommand_bareUse hchar hquery hbare) with
      | use hdb => exact (shifted_databaseArg_iff p zeroId command [] query).mp hdb ⟨hbare, rfl⟩
    · intro hw
      obtain ⟨hdeser, hone⟩ := hw
      cases h.roles _ _ (parseCommand_deserialize hchar hquery hdeser) with
      | deserialize hvalue =>
        exact (shifted_deserializeArg_iff zeroId command args nlhs).mp hvalue hone
  · intro h
    have hroles : ∀ q query, (parseCommand p (command :: args) 0).out = .ok (q, query) →
        (requestOf p (command :: args) 0 nlhs query q).Shifted
          (requestOf p (zeroId :: command :: args) 1 nlhs query q) := by
      intro q query hout
      obtain ⟨hquery, rfl⟩ := parseCommand_query hchar hout
      exact shifted_requestOf p zeroId command args nlhs query (hstatus query hquery)
        (h query hquery).1 (h query hquery).2
    refine ⟨shifted_parseCommand p zeroId _ 0, hroles,
      ⟨within_parseId, within_parseCommand p, within_parseId, within_parseCommand p⟩, ?_,
      mym_zeroId hchar hroles⟩
    intro q query hout
    refine ⟨within_requestOf p nlhs query q fun _ hle => hle, ?_⟩
    -- with an id there must be a database behind `use`
    apply within_requestOf p nlhs query q
    intro hbare _
    have hargs : 0 < args.length := by
      apply List.length_pos_iff.mpr
      intro hnil
      exact (h query (parseCommand_query hchar hout).1).1 ⟨hbare, hnil⟩
    simp only [List.length_cons]
    omega

/-! ### Two commands -/

/-- A char array of ASCII characters. -/
def charArray (s : Bytes) : MxArray :=
  .full ⟨MxClass.char.id, 2, [1, s.length], s.flatMap fun b => [b, 0], none, by
    simp [List.length_flatMap, Nat.mul_comm], fun _ h => by cases h⟩

/-- `mxGetString` for such arrays. -/
def asciiString : MxArray → Option CStr
  | .full a => some (textOf ((toWords 2 (a.re.length / 2) a.re).map UInt8.ofNat))
  | _ => none

def runPlatform : Platform where
  api := documentedApi
  use32 := false
  zlib := runZlib
  ratioTest _ _ := true
  compressTo := runCompress
  compressBound := (· + 9)
  outer _ _ _ := .undefined
  escape := mysqlEscape
  mxGetString := asciiString

/-- `use` with a database. -/
theorem useDatabase_sameMeaning : SameMeaning runPlatform 0 [charArray useWord, charArray [100]] := by
  have hquery : runPlatform.mxGetString (charArray useWord) = some ⟨useWord, by decide⟩ := rfl
  refine (sameMeaning_iff runPlatform 0 rfl (fun query h => ?_) _).mpr fun query h => ?_
  · rw [hquery] at h
    cases h
    decide
  · rw [hquery] at h
    cases h
    exact ⟨fun hbare => List.cons_ne_nil _ _ hbare.2, fun hdeser => absurd hdeser.1 (by decide)⟩

/-- **With an id in front, `use` alone reads an argument that is not there, and `deserialize` counts
one argument too many.** -/
theorem bareUse_not_sameMeaning :
    (mym runPlatform (run [(command openCommand, allWell [] 1)]) 0 [zeroId, charArray useWord]
      (allWell [] 1)).2 = .outside ∧
    ¬SameMeaning runPlatform 0 [charArray useWord] ∧
    ¬SameMeaning runPlatform 1 [charArray deserializeWord, quoteArray] := by
  have houtside : (mym runPlatform (run [(command openCommand, allWell [] 1)]) 0
      [zeroId, charArray useWord] (allWell [] 1)).2 = .outside := rfl
  have hraised : (mym runPlatform (run [(command openCommand, allWell [] 1)]) 0 [charArray useWord]
      (allWell [] 1)).2 = .raised .noDatabase := rfl
  have hmismatch : (mym runPlatform World.start 1 [zeroId, charArray deserializeWord, quoteArray]
      (allWell [] 1)).2 = .raised .deserializeMismatch := rfl
  have hvalue : (mym runPlatform World.start 1 [charArray deserializeWord, quoteArray]
      (allWell [] 1)).2 = .ok (.value (.dump [39])) := rfl
  refine ⟨houtside, fun h => ?_, fun h => ?_⟩
  · rw [h.effect, hraised] at houtside
    cases houtside
  · rw [h.effect, hvalue] at hmismatch
    cases hmismatch

end Mym
