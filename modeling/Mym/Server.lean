import Mym.Arguments
import Mym.ResultSet
import Mym.Slots

/-!
# A server behind the program

So far the answers of the client library were given with each call.  Here they come from a `Server`, which
sees the statements that are sent to it and replies to each; its state after a run is what the statements
in the log have made of it (`Server.state`).

`mym_sends` says what one call sends: at most the statement that its arguments ask for, and if it is a
query and comes back without an error, that statement and nothing else.
-/

namespace Mym

/-- What `mysql_real_query` and `mysql_store_result` come to. -/
inductive Reply where
  | refused
  /-- the statement has no result set -/
  | done
  | rows (res : ResultSet)

structure Server (σ : Type) where
  start : σ
  exec : σ → Bytes → σ × Reply

namespace Reply

/-- The number of results. -/
def results : Reply → Nat
  | refused => 0
  | done | rows _ => 1

/-- What the output branch is given to work on. -/
def stored (api : ResultApi) (nlhs : Nat) (toDouble : Bool) : Reply → Stored
  | refused => .failed
  | done => .noRows
  | rows res => .rows (do
    let _ ← (fetchOutput api nlhs toDouble res).out
    .ok ())

/-- `plhs[0]` -/
def output (api : ResultApi) (nlhs : Nat) (toDouble : Bool) : Reply → Result (Option Plhs)
  | rows res => (fetchOutput api nlhs toDouble res).out
  | _ => .ok none

end Reply

/-- The statements in a log, the last one first. -/
def statements : List Entry → List Bytes
  | [] => []
  | .call _ _ (.query stmt _) :: older => stmt :: statements older
  | _ :: older => statements older

section

variable {σ : Type} (srv : Server σ)

/-- The server, after the calls in a log. -/
def Server.state (log : List Entry) : σ :=
  (statements log).foldr (fun stmt s => (srv.exec s stmt).1) srv.start

/-- The statement that a call asks for, and whether it asks for doubles. -/
def statementOf (p : Platform) (prhs : List MxArray) : Result (Option (Bytes × Bool)) := do
  let (id, _) ← (parseId prhs).out
  let (q, query) ← (parseCommand p prhs id.jarg).out
  if q = .CMD then do
    let s ← (statementAt p prhs id.jarg query).out
    .ok (some s)
  else .ok none

/-- The answers of the server to a call, where `a` says how the connections do. -/
def answered (p : Platform) (api : ResultApi) (w : World) (nlhs : Nat) (prhs : List MxArray)
    (a : Answers) : Answers :=
  match statementOf p prhs with
  | .ok (some (stmt, toDouble)) =>
    let reply := (srv.exec (srv.state w.log) stmt).2
    { a with results := reply.results, stored := reply.stored api nlhs toDouble }
  | _ => a

/-- One call, answered by the server. -/
def serve (p : Platform) (api : ResultApi) (w : World) (nlhs : Nat) (prhs : List MxArray)
    (a : Answers) : World × Result (Option Plhs) :=
  giving (mym p w nlhs prhs (answered srv p api w nlhs prhs a)) fun _ =>
    match statementOf p prhs with
    | .ok (some (stmt, toDouble)) => (srv.exec (srv.state w.log) stmt).2.output api nlhs toDouble
    | _ => .ok none

end

/-! ### What is sent -/

/-- The other calls are not for the server's tables. -/
def ClientFn.isQuery : ClientFn → Bool
  | .query _ _ => true
  | _ => false

/-- No statement is sent on the way from `w` to `w'`. -/
def Silent (w w' : World) : Prop := statements w'.log = statements w.log

namespace Silent

variable {w w' w'' : World} {i : Slot}

theorem trans (h : Silent w w') (h' : Silent w' w'') : Silent w w'' := Eq.trans h' h

theorem call (w : World) (i : Slot) {fn : ClientFn} (hfn : fn.isQuery = false) :
    Silent w (w.call i fn) := by
  cases fn with
  | query stmt results => cases hfn
  | _ => rfl

theorem closeIfOpen (w : World) (i : Slot) : Silent w (w.closeIfOpen i) := by
  unfold World.closeIfOpen
  split
  · rfl
  · rfl

theorem pinged (w : World) (i : Slot) (ok : Bool) {continue_ : World → World × Result Unit}
    (h : ∀ w', Silent w' (continue_ w').1) : Silent w (w.pinged i ok continue_).1 := by
  unfold World.pinged
  dsimp only
  split
  · exact (call w i rfl).trans (h _)
  · rfl

/-- A branch for all connections. -/
theorem foldl {f : World → Slot → World} (h : ∀ w i, Silent w (f w i)) (slots : List Slot) (w : World) :
    Silent w (slots.foldl f w) := by
  induction slots generalizing w with
  | nil => rfl
  | cons i slots ih => exact (h w i).trans (ih _)

theorem attempt (w : World) (i : Slot) (ok : Bool) :
    Silent w (((w.note (.attempt i)).closeIfOpen i).init i ok) :=
  (closeIfOpen (w.note (.attempt i)) i).trans rfl

theorem openBranch (w : World) (i : Slot) (inp : Input) (a : Answers) :
    Silent w (openBranch w i inp a).1 := by
  unfold Mym.openBranch
  dsimp only
  split
  · exact attempt w i a.init
  split
  · exact attempt w i a.init
  split
  · split
    · exact (attempt w i a.init).trans rfl
    · exact (attempt w i a.init).trans rfl
  · exact (attempt w i a.init).trans rfl

theorem openWith (w : World) (i : Slot) (nlhs : Nat) (a : Answers)
    (host user pass ssl : Result (Option CStr)) : Silent w (openWith w i nlhs a host user pass ssl).1 := by
  unfold Mym.openWith
  split
  · split
    · exact openBranch w i _ a
    · exact attempt w i a.init
  · exact closeIfOpen (w.note (.attempt i)) i

theorem closeBranch (w : World) (i : Slot) : Silent w (closeBranch w i) :=
  closeIfOpen (w.note (.release i)) i

theorem closeAllBranch (w : World) : Silent w (closeAllBranch w) := foldl closeBranch _ w

theorem useWith (w : World) (i : Slot) (a : Answers) (db : Result Bytes) :
    Silent w (useWith w i a db).1 := by
  unfold Mym.useWith
  split
  · refine pinged w i a.ping fun w' => ?_
    split
    · dsimp only
      split
      · rfl
      · rfl
    · rfl
  · rfl

theorem reportSlot (a : Answers) (w : World) (j : Slot) : Silent w (reportSlot a w j) := by
  unfold Mym.reportSlot
  split
  · dsimp only
    split
    · rfl
    · rfl
  · rfl

theorem statusBranch (w : World) (i : Slot) (inp : Input) (a : Answers) :
    Silent w (statusBranch w i inp a).1 := by
  unfold Mym.statusBranch
  dsimp only
  split
  · split
    · split
      · rfl
      split
      · exact pinged w i a.ping fun w' => rfl
      · exact foldl (reportSlot a) _ w
    split
    · exact pinged w i a.ping fun w' => rfl
    · rfl
  split
  · split
    · split
      · rfl
      · rfl
    · rfl
  · rfl

end Silent

/-- What a request other than a query does at most. -/
theorem silent_perform (p : Platform) (w : World) (i : Slot) (id : IdArg) (nlhs : Nat) (a : Answers)
    {r : Request} (hr : ∀ s, r ≠ .cmd s) : Silent w (perform p w i id nlhs a r).1 := by
  cases r with
  | «open» host user pass ssl => exact Silent.openWith w i nlhs a _ _ _ _
  | close => exact Silent.closeBranch w i
  | closeAll => exact Silent.closeAllBranch w
  | use db => exact Silent.useWith w i a _
  | status => exact Silent.statusBranch w i _ a
  | cmd s => exact absurd rfl (hr s)
  | serialize cells => rfl
  | deserialize value => rfl
  | version surplus => rfl

/-! ### What a call sends -/

theorem escapes_silent (n : Nat) (w : World) {i : Slot} :
    Silent w ((List.replicate n ClientFn.escape).foldl (fun w fn => w.call i fn) w) := by
  induction n generalizing w with
  | zero => rfl
  | succ n ih => exact (Silent.call w i rfl).trans (ih _)

theorem fetch_silent (w : World) (i : Slot) (a : Answers) :
    Silent w (fetch w i a).1 ∧ (fetch w i a).2 = Phase.fetchResult a.stored := by
  unfold fetch
  cases a.stored with
  | noRows => exact ⟨rfl, rfl⟩
  | failed => exact ⟨rfl, rfl⟩
  | rows output => exact ⟨rfl, rfl⟩

/-- A query whose connection answers is sent. -/
theorem cmdBranch_sends (w : World) (i : Slot) (a : Answers) :
    Silent w (cmdBranch w i a).1 ∧ (∀ u, (cmdBranch w i a).2 ≠ .ok u) ∨
    ∃ stmt, a.prepared = .ok stmt ∧ statements (cmdBranch w i a).1.log = stmt :: statements w.log ∧
      (cmdBranch w i a).2 = if a.results = 0 then .raised .client else Phase.fetchResult a.stored := by
  unfold cmdBranch World.pinged
  dsimp only
  split
  · split
    · have hescapes : Silent w (Nat.repeat (fun w => w.call i .escape) a.escapes
          (w.call i (.ping a.ping))) := by
        rw [escapes_eq]
        exact (Silent.call w i rfl).trans (escapes_silent _ _)
      cases hprepared : a.prepared with
      | ok stmt =>
        refine Or.inr ⟨stmt, rfl, ?_⟩
        dsimp only
        by_cases hresults : a.results = 0
        · rw [if_pos hresults, if_pos hresults]
          exact ⟨congrArg (stmt :: ·) hescapes, rfl⟩
        · rw [if_neg hresults, if_neg hresults]
          obtain ⟨hfetch, hresult⟩ := fetch_silent
            ((Nat.repeat (fun w => w.call i .escape) a.escapes (w.call i (.ping a.ping))).call i
              (.query stmt a.results)) i a
          exact ⟨Eq.trans hfetch (congrArg (stmt :: ·) hescapes), hresult⟩
      | raised e => exact Or.inl ⟨hescapes, fun u h => by cases h⟩
      | outside => exact Or.inl ⟨hescapes, fun u h => by cases h⟩
      | undefined => exact Or.inl ⟨hescapes, fun u h => by cases h⟩
      | diverged => exact Or.inl ⟨hescapes, fun u h => by cases h⟩
    · exact Or.inl ⟨rfl, fun u h => by cases h⟩
  · exact Or.inl ⟨rfl, fun u h => by cases h⟩

/-- A connection that is open and answers is sent the statement. -/
theorem cmdBranch_open {w : World} {i : Slot} {a : Answers} (hopen : (w.c i).isopen = true)
    (hping : a.ping = true) {stmt : Bytes} (hprepared : a.prepared = .ok stmt) :
    (cmdBranch w i a).2 = if a.results = 0 then .raised .client else Phase.fetchResult a.stored := by
  unfold cmdBranch World.pinged
  dsimp only
  rw [if_pos hopen, if_pos hping, hprepared]
  dsimp only
  by_cases hresults : a.results = 0
  · rw [if_pos hresults, if_pos hresults]
  · rw [if_neg hresults, if_neg hresults]
    exact (fetch_silent _ i a).2

/-- A query that is answered leaves the connections alone. -/
theorem cmdBranch_c (w : World) (i : Slot) {a : Answers} (hping : a.ping = true) :
    (cmdBranch w i a).1.c = w.c := by
  have hescapes : ∀ (n : Nat) (w : World),
      ((List.replicate n ClientFn.escape).foldl (fun w fn => w.call i fn) w).c = w.c := by
    intro n
    induction n with
    | zero => exact fun _ => rfl
    | succ n ih => exact fun w => ih (w.call i .escape)
  unfold cmdBranch World.pinged
  dsimp only
  rw [if_pos hping, escapes_eq]
  split
  · split
    · split
      · exact hescapes _ _
      · unfold fetch
        cases a.stored with
        | _ => exact hescapes _ _
    · exact hescapes _ _
  · rfl

/-- **What one call sends.** -/
theorem mym_sends (p : Platform) (w : World) (nlhs : Nat) (prhs : List MxArray) (a : Answers) :
    Silent w (mym p w nlhs prhs a).1 ∧
      (statementOf p prhs = .ok none ∨ ∀ out, (mym p w nlhs prhs a).2 ≠ .ok out) ∨
    ∃ stmt on, statementOf p prhs = .ok (some (stmt, on)) ∧
      statements (mym p w nlhs prhs a).1.log = stmt :: statements w.log ∧
      (mym p w nlhs prhs a).2
        = (if a.results = 0 then .raised .client else Phase.fetchResult a.stored) >>= fun _ =>
          .ok (.rows on) := by
  unfold mym statementOf
  cases hid : (parseId prhs).out with
  | ok x =>
    obtain ⟨id, cid⟩ := x
    dsimp only
    rw [Outcome.ok_bind]
    unfold commandBranch
    dsimp only
    cases hcommand : (parseCommand p prhs id.jarg).out with
    | ok y =>
      obtain ⟨q, query⟩ := y
      dsimp only
      rw [Outcome.ok_bind]
      dsimp only
      cases hslot : pickSlot w q cid with
      | ok i =>
        dsimp only
        by_cases hq : q = .CMD
        · subst hq
          rw [if_pos rfl]
          rcases cmdBranch_sends w i
              { a with prepared := (statementAt p prhs id.jarg query).out >>= fun s => .ok s.1 } with
            ⟨hsilent, hno⟩ | ⟨stmt, hprepared, hsent, hresult⟩
          · refine Or.inl ⟨hsilent, Or.inr fun out h => ?_⟩
            obtain ⟨u, hu, -⟩ := Outcome.bind_eq_ok h
            exact hno u hu
          · obtain ⟨s, hs, hstmt⟩ := Outcome.bind_eq_ok hprepared
            cases hstmt
            refine Or.inr ⟨s.1, s.2, ?_, hsent, ?_⟩
            · rw [hs]
              rfl
            · show (cmdBranch w i _).2 >>= _ = _
              rw [hresult, hs]
              rfl
        · rw [if_neg hq]
          refine Or.inl ⟨silent_perform p w i id nlhs a ?_, Or.inl rfl⟩
          intro s
          cases q with
          | CMD => exact absurd rfl hq
          | _ => exact fun h => by cases h
      | _ => exact Or.inl ⟨rfl, Or.inr fun out h => by cases h⟩
    | _ => exact Or.inl ⟨rfl, Or.inr fun out h => by cases h⟩
  | _ => exact Or.inl ⟨rfl, Or.inr fun out h => by cases h⟩

/-! ### A call and the server -/

theorem Reply.output_behind (r : Reply) (api : ResultApi) (nlhs : Nat) (toDouble : Bool) :
    ((if r.results = 0 then .raised .client else Phase.fetchResult (r.stored api nlhs toDouble))
        >>= fun _ => r.output api nlhs toDouble)
      = if r.results = 0 then .raised .client else r.output api nlhs toDouble := by
  cases r with
  | refused => rfl
  | done => rfl
  | rows res =>
    show ((fetchOutput api nlhs toDouble res).out >>= fun _ => .ok ()) >>=
        (fun _ => (fetchOutput api nlhs toDouble res).out) = (fetchOutput api nlhs toDouble res).out
    cases (fetchOutput api nlhs toDouble res).out <;> rfl

section

variable {σ : Type} (srv : Server σ)

theorem Server.state_of_silent {w w' : World} (h : Silent w w') :
    srv.state w'.log = srv.state w.log := by
  rw [Server.state, h, Server.state]

/-- **One call of the program and the server.** -/
theorem serve_sends (p : Platform) (api : ResultApi) (w : World) (nlhs : Nat) (prhs : List MxArray)
    (a : Answers) :
    srv.state (serve srv p api w nlhs prhs a).1.log = srv.state w.log ∧
      (statementOf p prhs = .ok none ∨ ∀ out, (serve srv p api w nlhs prhs a).2 ≠ .ok out) ∨
    ∃ stmt on, statementOf p prhs = .ok (some (stmt, on)) ∧
      srv.state (serve srv p api w nlhs prhs a).1.log = (srv.exec (srv.state w.log) stmt).1 ∧
      (serve srv p api w nlhs prhs a).2
        = if (srv.exec (srv.state w.log) stmt).2.results = 0 then .raised .client
          else (srv.exec (srv.state w.log) stmt).2.output api nlhs on := by
  rcases mym_sends p w nlhs prhs (answered srv p api w nlhs prhs a) with
    ⟨hsilent, hno⟩ | ⟨stmt, on, hstatement, hsent, hresult⟩
  · refine Or.inl ⟨srv.state_of_silent hsilent, hno.imp id fun h out ho => ?_⟩
    obtain ⟨u, hu, -⟩ := Outcome.bind_eq_ok ho
    exact h u hu
  · refine Or.inr ⟨stmt, on, hstatement, ?_, ?_⟩
    · rw [serve, giving, Server.state, hsent]
      rfl
    · rw [serve, giving, hresult, answered, hstatement]
      rw [Outcome.bind_assoc]
      exact Reply.output_behind _ api nlhs on

end

end Mym
