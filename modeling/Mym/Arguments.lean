import Mym.Connection
import Mym.Flags
import Mym.Lib.Indexed
import Mym.SerializeCommand

/-!
# The arguments of a command

`mexFunction` from its argument array: an optional connection id, the command, and what each
branch reads of the arguments behind it, by index into `prhs`.  `jarg` is the index of the command.

A `Request` holds the readings of a branch, which are computations over `prhs` that keep the indices
they use; `perform` carries a request out, and sees nothing of `prhs` itself.  The readings for the
query and for the serializers come to what `statement` and `serializeCells` do with the list of
arguments behind the command (`statementAt_out`, `serializeCellsAt_out`).
-/

namespace Mym

/-! ### The id -/

/-- The whole number that a double holds, given its bits; `none` if there is none. -/
def wholeDouble (bits : Nat) : Option Int :=
  let exponent := bits / 2 ^ 52 % 2 ^ 11
  let fraction := bits % 2 ^ 52
  let significand := 2 ^ 52 + fraction
  let magnitude : Option Nat :=
    if exponent = 0 then if fraction = 0 then some 0 else none
    else if exponent = 2047 then none
    else if 1075 ≤ exponent then some (significand * 2 ^ (exponent - 1075))
    else if significand % 2 ^ (1075 - exponent) = 0 then some (significand / 2 ^ (1075 - exponent))
    else none
  magnitude.map fun n => if bits / 2 ^ 63 % 2 = 1 then -(n : Int) else n

namespace MxArray

/-- `mxIsNumeric` -/
def isNumeric (v : MxArray) : Bool := MxClass.double.id ≤ v.classId && v.classId ≤ MxClass.uint64.id

/-- `mxIsChar` -/
def isChar (v : MxArray) : Bool := v.classId == MxClass.char.id

theorem isChar_iff {v : MxArray} : v.isChar = true ↔ v.classId = MxClass.char.id := beq_iff_eq

/-- `mxGetM` and `mxGetN` are 1. -/
def isScalar (v : MxArray) : Bool := v.dims.head? == some 1 && v.dims.tail.prod == 1

/-- The data that `mxGetPr` points to, NULL for an empty array. -/
def data : MxArray → Result (Option Bytes)
  | .full a => .ok (if a.re = [] then none else some a.re)
  | .sparse a => .ok (some a.re)
  | _ => .undefined

end MxArray

/-- `*mxGetPr(prhs[0])` -/
def idNumber (v : MxArray) : Result IdArg := do
  let data ← v.data
  match data with
  | none => .outside
  | some mem => do
    let bits ← readWord mem 0 8
    .ok ((wholeDouble bits).elim .invalid .number)

/-- `jarg` -/
def IdArg.jarg (id : IdArg) : Nat := if id.isAbsent then 0 else 1

/-- The double 0. -/
def zeroId : MxArray :=
  .full ⟨MxClass.double.id, 8, [1, 1], List.replicate 8 0, none, rfl, by simp⟩

/-! ### Requests -/

/-- What is not `mexFunction` itself. -/
structure Platform where
  api : MxApi
  use32 : Bool
  zlib : Zlib
  ratioTest : (plen len : Nat) → Bool
  compressTo : (capacity : Nat) → Bytes → Option Bytes
  compressBound : Nat → Nat
  outer : CStr → Serializer → MxArray → Result Serial
  escape : Bytes → Bytes
  mxGetString : MxArray → Option CStr

abbrev Reading (α : Type) := Indexed MexError α

/-- A branch, with what it reads of the arguments. -/
inductive Request where
  | open (host user pass ssl : Reading (Option CStr))
  | close
  | closeAll
  | use (db : Reading Bytes)
  | status
  | cmd (statement : Reading (Bytes × Bool))
  | serialize (cells : Reading (List Bytes))
  | deserialize (value : Reading MxArray)
  | version (surplus : Bool)

section

variable (p : Platform) (prhs : List MxArray) (jarg : Nat)

/-- `getstring(prhs[k])` -/
def argString (k : Nat) : Reading CStr := do
  let v ← .get prhs k
  .lift (getstring p.mxGetString v)

/-- `if (nrhs>=(jarg+k+1))` and `getstring(prhs[jarg+k])` -/
def optionalString (k : Nat) : Reading (Option CStr) :=
  if jarg + k + 1 ≤ prhs.length then do
    let s ← argString p prhs (jarg + k)
    pure (some s)
  else pure none

/-- The database of a `use` command. -/
def databaseArg (query : CStr) : Reading Bytes :=
  if strcaseEq query.1 useWord then
    -- the number of all arguments, the id included
    if 2 ≤ prhs.length then do
      let db ← argString p prhs (jarg + 1)
      pure db.1
    else .lift (.raised .noDatabase)
  else pure ((query.1.drop 4).dropWhile fun b => b == 32 || b == 9)

/-- `for (int i=nrhs-1; i > jarg; --i)`, from `i - 1` on. -/
def countFlagsAt : (i : Nat) → Reading Nat
  | 0 => pure 0
  | i + 1 =>
    if jarg < i then do
      let v ← .get prhs i
      if v.isChar then do
        let s ← argString p prhs i
        if strcaseEq s.1 mlFlagBigintToDouble then do
          let n ← countFlagsAt i
          pure (n + 1)
        else pure 0
      else pure 0
    else pure 0

/-- The placeholders with their arguments, `prhs[jarg+i+1]` for `n` indices from `i` on. -/
def entriesAt (s : Scan) : (i n : Nat) → Reading (List ((Nat × Nat) × MxArray))
  | _, 0 => pure []
  | i, n + 1 => do
    let v ← .get prhs (jarg + i + 1)
    let o ← .lift (readEntry s.po i)
    let c ← .lift (readEntry s.pc i)
    match o, c with
    | some o, some c => do
      let es ← entriesAt s (i + 1) n
      pure (((o, c), v) :: es)
    | _, _ => .lift .undefined

/-- The loop over the flags, for `n` indices from `i` on. -/
def readFlagsAt : (i n : Nat) → Reading Bool
  | _, 0 => pure false
  | i, n + 1 => do
    let s ← argString p prhs i
    let on ← readFlagsAt (i + 1) n
    pure (strcaseEq s.1 mlFlagBigintToDouble || on)

/-- The placeholder processing, once the flags have been counted. -/
def processAt (query : CStr) (nbFlags : Nat) : Reading Processed := do
  let mem := query.1 ++ [0]
  let expected := prhs.length - jarg - 1
  if expected = 0 then pure ⟨mem, query.1.length, 0, nbFlags⟩
  else do
    let s ← .lift (scan mem expected)
    let nbFlags ← .lift (adjustFlags s.nac expected nbFlags)
    let es ← entriesAt prhs jarg s 0 s.nac
    let q ← .lift (do
      let r ← readTypes mem es
      let pds ← serializeFields p.zlib p.ratioTest p.outer r.1 r.2
      buildQuery p.escape r.1 query.1.length r.2 pds)
    pure ⟨q.1, q.2, s.nac, nbFlags⟩

/-- `CMD`, up to the statement and the flag. -/
def statementAt (query : CStr) : Reading (Bytes × Bool) := do
  let nbFlags ← countFlagsAt p prhs jarg prhs.length
  let r ← processAt p prhs jarg query nbFlags
  let text ← .lift (sendText r.query)
  let on ← readFlagsAt p prhs (prhs.length - r.nbFlags) (prhs.length - (prhs.length - r.nbFlags))
  pure (text, on)

/-- `SERIALIZE` -/
def serializeCellsAt (query : CStr) : Reading (List Bytes) := do
  let mem := query.1 ++ [0]
  let expected := prhs.length - jarg - 1
  if expected = 0 then pure []
  else do
    let s ← .lift (scan mem expected)
    if s.nac ≠ expected then .lift (.raised .placeholderNumber)
    else do
      let es ← entriesAt prhs jarg s 0 s.nac
      .lift (do
        let r ← readTypes mem es
        serializeLoop p.ratioTest p.outer p.compressTo p.compressBound r.1 Scratch.start r.2)

/-- `DESERIALIZE`: the index does not depend on `jarg`. -/
def deserializeArg (nlhs : Nat) : Reading MxArray :=
  if nlhs = 1 ∧ prhs.length = 2 then .get prhs 1 else .lift (.raised .deserializeMismatch)

def requestOf (nlhs : Nat) (query : CStr) : QueryType → Request
  | .OPEN => .open (optionalString p prhs jarg 1) (optionalString p prhs jarg 2)
      (optionalString p prhs jarg 3) (optionalString p prhs jarg 4)
  | .CLOSE => .close
  | .CLOSE_ALL => .closeAll
  | .USE => .use (databaseArg p prhs jarg query)
  | .STATUS => .status
  | .CMD => .cmd (statementAt p prhs jarg query)
  | .SERIALIZE => .serialize (serializeCellsAt p prhs jarg query)
  | .DESERIALIZE => .deserialize (deserializeArg prhs nlhs)
  | .VERSION => .version (decide (jarg + 1 < prhs.length))

/-- The check that `n` arguments from `j` on are char arrays. -/
def checkStrings : (j n : Nat) → Reading Unit
  | _, 0 => pure ()
  | j, n + 1 => do
    let v ← .get prhs j
    if v.isChar then checkStrings (j + 1) n else .lift (.raised .argsNotStrings)

def idArg : Reading IdArg :=
  if prhs.length = 0 then pure .absent
  else do
    let v ← .get prhs 0
    if v.isNumeric then .lift (if v.isScalar then idNumber v else .ok .invalid) else pure .absent

/-- The id, with the slot it names, if it does. -/
def parseId : Reading (IdArg × Option Slot) := do
  let id ← idArg prhs
  let cid ← .lift (connectionId id)
  pure (id, cid)

/-- The command string, and what it asks for. -/
def parseCommand : Reading (QueryType × CStr) :=
  if prhs.length ≤ jarg then pure (.STATUS, ⟨[], by simp⟩)
  else do
    let v ← .get prhs jarg
    if v.isChar then do
      let query ← argString p prhs jarg
      let q := classify query
      if q ≠ .CMD ∧ q ≠ .SERIALIZE ∧ q ≠ .DESERIALIZE then do
        checkStrings prhs jarg (prhs.length - jarg)
        pure (q, query)
      else pure (q, query)
    else .lift (.raised .missingCommand)

end

/-! ### The arguments behind the command -/

section

variable (p : Platform) {prhs : List MxArray} {jarg : Nat}

theorem argString_out {k : Nat} (h : k < prhs.length) :
    (argString p prhs k).out = getstring p.mxGetString prhs[k] := by
  rw [argString, Indexed.out_bind, Indexed.out_get, readEntry_of_lt h]
  rfl

/-- The strings behind a command are looked at if it is not for the server or the serializers. -/
theorem parseCommand_out {command : MxArray} (h : prhs[jarg]? = some command)
    (hchar : command.isChar = true) :
    (parseCommand p prhs jarg).out = getstring p.mxGetString command >>= fun query =>
      (if classify query ≠ .CMD ∧ classify query ≠ .SERIALIZE ∧ classify query ≠ .DESERIALIZE then
        (checkStrings prhs jarg (prhs.length - jarg)).out >>= fun _ => .ok (classify query, query)
      else .ok (classify query, query)) := by
  obtain ⟨hlt, rfl⟩ := List.getElem?_eq_some_iff.mp h
  rw [parseCommand, if_neg (Nat.not_le.mpr hlt), Indexed.out_bind, Indexed.out_get,
    readEntry_of_lt hlt, Outcome.ok_bind, if_pos hchar, Indexed.out_bind, argString_out p hlt]
  apply Outcome.bind_congr
  intro query _
  dsimp only
  split
  · rw [Indexed.out_bind]
    rfl
  · rfl

/-- The flags are counted from the end of the arguments. -/
theorem countFlagsAt_out {i : Nat} (h : i ≤ prhs.length) : (countFlagsAt p prhs jarg i).out
    = countFlags p.mxGetString ((prhs.take i).drop (jarg + 1)).reverse := by
  induction i with
  | zero =>
    rw [List.take_zero, List.drop_nil]
    rfl
  | succ i ih =>
    rw [countFlagsAt]
    by_cases hj : jarg < i
    · have hlen : jarg + 1 ≤ (prhs.take i).length := by
        rw [List.length_take]
        omega
      rw [if_pos hj, List.take_succ_eq_append_getElem h, List.drop_append_of_le_length hlen,
        List.reverse_append, List.reverse_singleton, List.singleton_append, countFlags,
        Indexed.out_bind, Indexed.out_get, readEntry_of_lt h, Outcome.ok_bind]
      by_cases hchar : prhs[i].classId = MxClass.char.id
      · rw [if_pos (MxArray.isChar_iff.mpr hchar), if_pos hchar, Indexed.out_bind, argString_out p h]
        apply Outcome.bind_congr
        intro s _
        split
        · rw [Indexed.out_bind, ih (Nat.le_of_succ_le h)]
          rfl
        · rfl
      · rw [if_neg (mt MxArray.isChar_iff.mp hchar), if_neg hchar]
        rfl
    · have hnil : (prhs.take (i + 1)).drop (jarg + 1) = [] := by
        rw [List.drop_eq_nil_iff, List.length_take]
        omega
      rw [if_neg hj, hnil]
      rfl

theorem entriesAt_out (s : Scan) (i n : Nat) :
    (entriesAt prhs jarg s i n).out = entries s i n (prhs.drop (jarg + i + 1)) := by
  induction n generalizing i with
  | zero => rw [entriesAt, entries]; rfl
  | succ n ih =>
    rw [entriesAt, Indexed.out_bind, Indexed.out_get]
    by_cases h : jarg + i + 1 < prhs.length
    · rw [readEntry_of_lt h, Outcome.ok_bind, List.drop_eq_getElem_cons h, entries,
        Indexed.out_bind, Indexed.out_lift]
      apply Outcome.bind_congr
      intro o _
      rw [Indexed.out_bind, Indexed.out_lift]
      apply Outcome.bind_congr
      intro c _
      cases o with
      | none => rfl
      | some o =>
        cases c with
        | none => rfl
        | some c =>
          dsimp only
          rw [Indexed.out_bind, ih]
          rfl
    · rw [List.drop_eq_nil_of_le (Nat.not_lt.mp h), entries, readEntry,
        List.getElem?_eq_none (Nat.not_lt.mp h)]
      rfl

theorem readFlagsAt_out {i n : Nat} (h : i + n = prhs.length) :
    (readFlagsAt p prhs i n).out = readFlags p.mxGetString (prhs.drop i) := by
  induction n generalizing i with
  | zero =>
    have hnil : prhs.drop i = [] := List.drop_eq_nil_of_le (Nat.le_of_eq h.symm)
    rw [hnil]
    rfl
  | succ n ih =>
    have hi : i < prhs.length := by omega
    rw [readFlagsAt, List.drop_eq_getElem_cons hi, readFlags, Indexed.out_bind, argString_out p hi]
    apply Outcome.bind_congr
    intro s _
    rw [Indexed.out_bind, ih (by omega)]
    rfl

theorem length_behind : (prhs.drop (jarg + 1)).length = prhs.length - jarg - 1 := by
  rw [List.length_drop, Nat.sub_sub]

theorem processAt_out (q : Query) :
    ((countFlagsAt p prhs jarg prhs.length).out >>= fun nb => (processAt p prhs jarg q.text nb).out)
      = processPlaceholders p.zlib p.ratioTest p.outer p.escape p.mxGetString q
          (prhs.drop (jarg + 1)) := by
  rw [processPlaceholders, countFlagsAt_out p (Nat.le_refl _), List.take_length]
  apply Outcome.bind_congr
  intro nb _
  unfold processAt
  dsimp only
  rw [length_behind]
  split
  · rfl
  · rw [Indexed.out_bind, Indexed.out_lift]
    apply Outcome.bind_congr
    intro s _
    rw [Indexed.out_bind, Indexed.out_lift]
    apply Outcome.bind_congr
    intro nb' _
    rw [Indexed.out_bind, entriesAt_out, fillPlaceholders, Outcome.bind_assoc]
    apply Outcome.bind_congr
    intro es _
    rw [Indexed.out_bind, Indexed.out_lift]
    rfl

/-- **The query branch** does with the array what `statement` does with the arguments behind the
command. -/
theorem statementAt_out (hjarg : jarg < prhs.length) (q : Query) : (statementAt p prhs jarg q.text).out
    = statement p.zlib p.ratioTest p.outer p.escape p.mxGetString q (prhs.drop (jarg + 1)) := by
  rw [statementAt, Indexed.out_bind, statement, ← processAt_out, Outcome.bind_assoc]
  apply Outcome.bind_congr
  intro nb hnb
  rw [Indexed.out_bind]
  apply Outcome.bind_congr
  intro r hr
  rw [Indexed.out_bind, Indexed.out_lift]
  apply Outcome.bind_congr
  intro text _
  have hprocess : processPlaceholders p.zlib p.ratioTest p.outer p.escape p.mxGetString q
      (prhs.drop (jarg + 1)) = .ok r := by
    rw [← processAt_out, hnb, Outcome.ok_bind, hr]
  have hle : r.nbFlags ≤ (prhs.drop (jarg + 1)).length := by
    obtain ⟨nb', hcount, hflags⟩ := processPlaceholders_flags hprocess
    have := (countFlags_spec hcount).1
    rw [List.length_reverse] at this
    omega
  have hstart : jarg + 1 + ((prhs.drop (jarg + 1)).length - r.nbFlags) = prhs.length - r.nbFlags := by
    rw [List.length_drop] at hle ⊢
    omega
  rw [Indexed.out_bind, readFlagsAt_out p (by omega), processFlags, List.drop_drop, hstart]
  rfl

/-- **The serialize command** does so as well. -/
theorem serializeCellsAt_out (q : Query) : (serializeCellsAt p prhs jarg q.text).out
    = serializeCells p.ratioTest p.outer p.compressTo p.compressBound q (prhs.drop (jarg + 1)) := by
  unfold serializeCellsAt serializeCells
  dsimp only
  rw [length_behind]
  split
  · rfl
  · rw [Indexed.out_bind, Indexed.out_lift]
    apply Outcome.bind_congr
    intro s _
    split
    · rfl
    · rw [Indexed.out_bind, entriesAt_out]
      rfl

end

/-! ### Carrying a request out -/

/-- What a command hands back.  A query and `version` print it if nothing is asked for. -/
inductive Output where
  | nothing
  | id (i : Slot)
  /-- the 1 of `use` -/
  | one
  | status (code : Nat)
  | rows (bigintToDouble : Bool)
  | cells (cs : List Bytes)
  | value (v : Fetched)
  | version

/-- `openBranch`, when the strings may fail to be read. -/
def openWith (w : World) (i : Slot) (nlhs : Nat) (a : Answers)
    (host user pass ssl : Result (Option CStr)) : World × Result Unit :=
  match (do let h ← host; let u ← user; let p ← pass; .ok [h, u, p] : Result _) with
  | .ok args =>
    match ssl with
    | .ok s => openBranch w i ⟨.absent, none, args ++ [s], nlhs⟩ a
    | r =>
      let w := ((w.note (.attempt i)).closeIfOpen i).init i a.init
      (w, if (w.c i).conn = none then .raised .cannotInit else r >>= fun _ => .ok ())
  | r => ((w.note (.attempt i)).closeIfOpen i, r >>= fun _ => .ok ())

/-- `useBranch`, with the database that has been read. -/
def useWith (w : World) (i : Slot) (a : Answers) (db : Result Bytes) : World × Result Unit :=
  if (w.c i).isopen then
    w.pinged i a.ping fun w =>
      match db with
      | .ok _ =>
        let w := w.call i (.selectDb a.selectDb)
        if a.selectDb then (w, .ok ()) else (w.call i .error, .raised .client)
      | r => (w, r >>= fun _ => .ok ())
  else (w, .raised .notConnected)

/-- `DESERIALIZE`, for the array that has been read. -/
def deserializeValue (p : Platform) (v : MxArray) : Result Fetched := do
  let data ← v.data
  deserialize p.api p.zlib p.use32 data (max (v.dims[0]?.getD 0) (v.dims[1]?.getD 0))

/-- `*pr` -/
def statusCode (w : World) (i : Slot) (a : Answers) : Nat :=
  if (w.c i).isopen then
    if a.ping then
      if a.stat then 0 else 3
    else 2
  else 1

/-- Replaces what a command hands back. -/
def giving {α β : Type} (x : World × Result α) (out : α → Result β) : World × Result β :=
  (x.1, x.2 >>= out)

/-- A branch, given the id that stands in front, if one does. -/
def perform (p : Platform) (w : World) (i : Slot) (id : IdArg) (nlhs : Nat) (a : Answers) :
    Request → World × Result Output
  | .open host user pass ssl =>
    giving (openWith w i nlhs a host.out user.out pass.out ssl.out) fun _ =>
      .ok (if nlhs < 1 then .nothing else .id i)
  | .close => (closeBranch w i, .ok .nothing)
  | .closeAll => (closeAllBranch w, .ok .nothing)
  | .use db => giving (useWith w i a db.out) fun _ => .ok (if nlhs < 1 then .nothing else .one)
  | .status =>
    giving (statusBranch w i ⟨id, none, [], nlhs⟩ a) fun _ =>
      .ok (if nlhs < 1 then .nothing else .status (statusCode w i a))
  | .cmd statement =>
    giving (cmdBranch w i { a with prepared := statement.out >>= fun s => .ok s.1 }) fun _ =>
      statement.out >>= fun s => .ok (.rows s.2)
  | .serialize cells =>
    -- without arguments there is no cell array
    (w, cells.out >>= fun cs => .ok (if nlhs < 1 ∨ cs = [] then .nothing else .cells cs))
  | .deserialize value =>
    (w, value.out >>= fun v => deserializeValue p v >>= fun v => .ok (.value v))
  | .version surplus =>
    (w, if surplus then .raised .versionInputs
      else if nlhs ≤ 1 then .ok .version else .raised .versionOutputs)

/-- `mexFunction`, once the id is known. -/
def commandBranch (p : Platform) (w : World) (nlhs : Nat) (prhs : List MxArray) (a : Answers)
    (id : IdArg) (cid : Option Slot) : World × Result Output :=
  match (parseCommand p prhs id.jarg).out with
  | .ok (q, query) =>
    match pickSlot w q cid with
    | .ok i => perform p w i id nlhs a (requestOf p prhs id.jarg nlhs query q)
    | r => (w, r >>= fun _ => .ok .nothing)
  | r => (w, r >>= fun _ => .ok .nothing)

/-- `mexFunction` -/
def mym (p : Platform) (w : World) (nlhs : Nat) (prhs : List MxArray) (a : Answers) :
    World × Result Output :=
  match (parseId prhs).out with
  | .ok (id, cid) => commandBranch p w nlhs prhs a id cid
  | r => (w, r >>= fun _ => .ok .nothing)

end Mym
