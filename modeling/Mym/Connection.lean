import Mathlib.Data.Fin.Basic
import Mathlib.Data.List.FinRange
import Mathlib.Logic.Function.Basic
import Mym.Command

/-!
# The connection table

`mexFunction` as far as it touches the table `c` of twenty connections: it finds the slot
that is meant, and each of its branches reads and writes the slot's `conn` and `isopen`
around its calls to the MySQL client.

What the client answers, and what the preparation of a query comes to, is `Answers`; a run
of `mym` commands is any list of inputs with any answers.  The state carries a log, newest
entry first, of the client calls with the handle each was given, and of what the branches
do to a slot (`attempt`, `success`, `release`).

A handle is a number.  `mysql_init(NULL)` returns NULL or a number that has not been
used, and `mysql_init(conn)` returns NULL or `conn`.
-/

namespace Mym

abbrev Handle := Nat

/-- `MAXCONN` -/
abbrev maxConn : Nat := 20

abbrev Slot := Fin maxConn

/-- `conninfo`: NULL is `none`. -/
structure ConnInfo where
  conn : Option Handle
  isopen : Bool
  deriving DecidableEq, Repr

/-- A call to the client, with what it reports.  A query reports how many results it has; none
means that it is refused.  `info` stands for the calls that describe the connection. -/
inductive ClientFn where
  | init (res : Option Handle)
  | options
  | realConnect (ok : Bool)
  | stat (ok : Bool)
  | ping (ok : Bool)
  | selectDb (ok : Bool)
  | escape
  | query (stmt : Bytes) (results : Nat)
  | storeResult
  | fieldCount
  | affectedRows
  | info
  | error
  | close
  deriving DecidableEq, Repr

inductive Entry where
  /-- the open branch is entered for slot `i` -/
  | attempt (i : Slot)
  /-- the open branch gets to its end -/
  | success (i : Slot)
  /-- slot `i` is told to close -/
  | release (i : Slot)
  | call (i : Slot) (conn : Option Handle) (fn : ClientFn)
  deriving DecidableEq, Repr

structure World where
  c : Slot → ConnInfo
  /-- the handle `mysql_init(NULL)` returns next -/
  next : Handle
  log : List Entry

/-- The first argument of `mym`: no number, a number that cannot be an id (not a scalar, not
whole), or a whole number. -/
inductive IdArg where
  | absent
  | invalid
  | number (n : Int)

/-- `jarg` is 0. -/
def IdArg.isAbsent : IdArg → Bool
  | .absent => true
  | _ => false

/-- The arguments of `mym`.  Of the arguments behind the command only the char arrays matter
here; `none` is any other array. -/
structure Input where
  id : IdArg
  command : Option (Option CStr)
  args : List (Option CStr)
  nlhs : Nat

/-- What comes back for a query that was accepted. -/
inductive Stored where
  /-- no result, and no field either -/
  | noRows
  /-- no result although there are fields -/
  | failed
  /-- a result, from which the output is made -/
  | rows (output : Result Unit)

/-- What the surroundings answer to one command: `pings` to the report about all connections, the
others each to the call they name.  A query is `prepared`, with a number of calls that
escape its arguments, before it is sent. -/
structure Answers where
  init : Bool
  connect : Bool
  stat : Bool
  ping : Bool
  pings : Slot → Bool
  selectDb : Bool
  escapes : Nat
  prepared : Result Bytes
  results : Nat
  stored : Stored
  /-- what a command without client calls comes to -/
  offline : Result Unit

namespace World

/-! ### Steps on a slot -/

def note (w : World) (e : Entry) : World := { w with log := e :: w.log }

def set (w : World) (i : Slot) (s : ConnInfo) : World := { w with c := Function.update w.c i s }

/-- A client call on the handle of slot `i`. -/
def call (w : World) (i : Slot) (fn : ClientFn) : World := w.note (.call i (w.c i).conn fn)

/-- `conn = mysql_init(conn)` -/
def init (w : World) (i : Slot) (ok : Bool) : World :=
  let res := if ok then some ((w.c i).conn.getD w.next) else none
  let next := if ok ∧ (w.c i).conn = none then w.next + 1 else w.next
  { ((w.call i (.init res)).set i { w.c i with conn := res }) with next }

/-- `isopen = false` -/
def drop (w : World) (i : Slot) : World := w.set i { w.c i with isopen := false }

def closeIfOpen (w : World) (i : Slot) : World :=
  if (w.c i).isopen then (w.call i .close).set i ⟨none, false⟩ else w

/-- `mysql_ping`, and the exit when it fails. -/
def pinged (w : World) (i : Slot) (ok : Bool) (continue_ : World → World × Result Unit) :
    World × Result Unit :=
  let w := w.call i (.ping ok)
  if ok then continue_ w else ((w.drop i).call i .error, .raised .client)

end World

/-! ### The branches -/

/-- The fourth argument of `open`, if it asks for a custom TLS setup. -/
def isTlsStruct (ssl : Option CStr) : Bool :=
  match ssl with
  | none => false
  | some s => !strcaseEq s.1 [116, 114, 117, 101] && !strcaseEq s.1 [102, 97, 108, 115, 101]
      && s.1.contains 123

/-- `OPEN` -/
def openBranch (w : World) (i : Slot) (inp : Input) (a : Answers) : World × Result Unit :=
  let w := (w.note (.attempt i)).closeIfOpen i
  let w := w.init i a.init
  if (w.c i).conn = none then (w, .raised .cannotInit)
  else if isTlsStruct (inp.args[3]?.getD none) then (w, .raised .tlsStruct)
  else
    let w := (w.call i .options).call i (.realConnect a.connect)
    if a.connect then
      let w := w.call i (.stat a.stat)
      if a.stat then ((w.set i { w.c i with isopen := true }).note (.success i), .ok ())
      else (w.call i .error, .raised .client)
    else (w.call i .error, .raised .client)

/-- `CLOSE` -/
def closeBranch (w : World) (i : Slot) : World := (w.note (.release i)).closeIfOpen i

/-- `CLOSE_ALL` -/
def closeAllBranch (w : World) : World := (List.finRange maxConn).foldl closeBranch w

/-- The database of a `use` command. -/
def database (query : CStr) (inp : Input) : Result Bytes :=
  if strcaseEq query.1 useWord then
    let nrhs := (if inp.id.isAbsent then 0 else 1) + 1 + inp.args.length
    if 2 ≤ nrhs then
      match inp.args.head? with
      | some (some db) => .ok db.1
      -- with an id in front the argument that is read is not there
      | _ => .undefined
    else .raised .noDatabase
  else .ok ((query.1.drop 4).dropWhile fun b => b == 32 || b == 9)

/-- `USE` -/
def useBranch (w : World) (i : Slot) (query : CStr) (inp : Input) (a : Answers) :
    World × Result Unit :=
  if (w.c i).isopen then
    w.pinged i a.ping fun w =>
      match database query inp with
      | .ok _ =>
        let w := w.call i (.selectDb a.selectDb)
        if a.selectDb then (w, .ok ()) else (w.call i .error, .raised .client)
      | r => (w, r >>= fun _ => .ok ())
  else (w, .raised .notConnected)

/-- One line of the report about all connections. -/
def reportSlot (a : Answers) (w : World) (j : Slot) : World :=
  if (w.c j).isopen then
    let w := w.call j (.ping (a.pings j))
    -- the line about a failed ping is printed without the number its format asks for
    if a.pings j then w.call j .info else (w.drop j).call j .error
  else w

/-- `STATUS` -/
def statusBranch (w : World) (i : Slot) (inp : Input) (a : Answers) : World × Result Unit :=
  if inp.nlhs < 1 then
    if inp.id.isAbsent then
      let nconn := ((List.finRange maxConn).filter fun j => (w.c j).isopen).length
      if nconn = 0 then (w, .ok ())
      else if nconn = 1 ∧ (w.c 0).isopen then
        w.pinged i a.ping fun w => (w.call i .info, .ok ())
      else ((List.finRange maxConn).foldl (reportSlot a) w, .ok ())
    else if (w.c i).isopen then w.pinged i a.ping fun w => (w.call i .info, .ok ())
    else (w, .ok ())
  else if (w.c i).isopen then
    let w := w.call i (.ping a.ping)
    if a.ping then
      let w := w.call i (.stat a.stat)
      if a.stat then (w, .ok ()) else (w.drop i, .ok ())
    else (w.drop i, .ok ())
  else (w, .ok ())

/-- `mysql_store_result` and what follows it. -/
def fetch (w : World) (i : Slot) (a : Answers) : World × Result Unit :=
  let w := w.call i .storeResult
  match a.stored with
  | .noRows => ((w.call i .fieldCount).call i .affectedRows, .ok ())
  | .failed => ((w.call i .fieldCount).call i .error, .raised .client)
  | .rows output => (w, output)

/-- `CMD` -/
def cmdBranch (w : World) (i : Slot) (a : Answers) : World × Result Unit :=
  if (w.c i).isopen then
    w.pinged i a.ping fun w =>
      let w := Nat.repeat (fun w => w.call i .escape) a.escapes w
      match a.prepared with
      | .ok stmt =>
        let w := w.call i (.query stmt a.results)
        if a.results = 0 then (w.call i .error, .raised .client) else fetch w i a
      | r => (w, r >>= fun _ => .ok ())
  else (w, .raised .notConnected)

/-! ### The command as a whole -/

/-- The slot the first argument names, `none` for the request to look for a free one. -/
def connectionId : IdArg → Result (Option Slot)
  | .absent => .ok (some 0)
  | .invalid => .raised .invalidId
  | .number n =>
    if n = -1 then .ok none
    else if h : 0 ≤ n ∧ n.toNat < maxConn then .ok (some ⟨n.toNat, h.2⟩)
    else .raised .invalidId

def queryType : Option (Option CStr) → Result QueryType
  | none => .ok .STATUS
  | some none => .raised .missingCommand
  | some (some query) => .ok (classify query)

/-- The first slot that is not open. -/
def firstFree (w : World) : Option Slot := (List.finRange maxConn).find? fun i => !(w.c i).isopen

/-- The automatic scan for a slot, if there is one to be made. -/
def pickSlot (w : World) (q : QueryType) : Option Slot → Result Slot
  | some i => .ok i
  | none =>
    if q = .OPEN then
      match firstFree w with
      | some i => .ok i
      | none => .raised .noFreeId
    else .raised .scanOnlyOpen

/-- The branch and the slot that the arguments ask for. -/
def parse (w : World) (inp : Input) : Result (QueryType × Slot) := do
  let cid ← connectionId inp.id
  let q ← queryType inp.command
  if q ≠ .CMD ∧ q ≠ .SERIALIZE ∧ q ≠ .DESERIALIZE ∧ none ∈ inp.args then .raised .argsNotStrings
  else
    let i ← pickSlot w q cid
    .ok (q, i)

def branch (w : World) (q : QueryType) (i : Slot) (inp : Input) (a : Answers) :
    World × Result Unit :=
  match q with
  | .OPEN => openBranch w i inp a
  | .CLOSE => (closeBranch w i, .ok ())
  | .CLOSE_ALL => (closeAllBranch w, .ok ())
  | .USE =>
    match inp.command with
    | some (some query) => useBranch w i query inp a
    | _ => (w, .undefined)
  | .STATUS => statusBranch w i inp a
  | .CMD => cmdBranch w i a
  | .SERIALIZE | .DESERIALIZE | .VERSION => (w, a.offline)

def mexFunction (w : World) (inp : Input) (a : Answers) : World × Result Unit :=
  match parse w inp with
  | .ok (q, i) => branch w q i inp a
  | r => (w, r >>= fun _ => .ok ())

/-- Before the first command. -/
def World.start : World := ⟨fun _ => ⟨none, false⟩, 0, []⟩

/-- The world after a list of commands, the newest first. -/
def run : List (Input × Answers) → World
  | [] => World.start
  | s :: older => (mexFunction (run older) s.1 s.2).1

/-! ### Commands that go well -/

/-- `mym` with one char array. -/
def command (s : CStr) : Input := ⟨.absent, some (some s), [], 0⟩

/-- Nothing fails, and the query `stmt` has `results` results. -/
def allWell (stmt : Bytes) (results : Nat) : Answers where
  init := true
  connect := true
  stat := true
  ping := true
  pings _ := true
  selectDb := true
  escapes := 0
  prepared := .ok stmt
  results := results
  stored := .rows (.ok ())
  offline := .ok ()

def openCommand : CStr := ⟨openWord, by decide⟩

/-- `SELECT 1` -/
def select : CStr := ⟨[83, 69, 76, 69, 67, 84, 32, 49], by decide⟩

/-- `SELECT 1; SELECT 2` -/
def twoSelects : CStr :=
  ⟨[83, 69, 76, 69, 67, 84, 32, 49, 59, 32, 83, 69, 76, 69, 67, 84, 32, 50], by decide⟩

end Mym
