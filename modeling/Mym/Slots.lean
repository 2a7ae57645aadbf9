import Mym.ConnectionTable
import Mym.Lib.Product

/-!
# Twenty connections

What the connection table is for: twenty connections that have nothing to do with each other.  A slot
for itself is an automaton with three phases; what it is asked (`SlotCommand`) takes it to its next phase,
makes calls to the client and comes to a result (`Phase.react`).

`mexFunction` refines twenty copies of it: a command asks something of the slots it gets to
(`askedOf`), and each slot then shows what its automaton does (`view_mexFunction`).  Handles are
numbers that all slots draw from one supply, so a slot shows only whether a call is given one.

The slots touch in two places.  `open` with the id -1 looks for a slot that is not open, and the
report about all connections counts the open ones; every other command asks what it asks whatever the
table holds (`Directed`), and runs of those may be interleaved at will (`view_interleaved`).
-/

namespace Mym

/-! ### A slot for itself -/

inductive Phase where
  /-- no handle -/
  | free
  /-- a handle, and `isopen` is false -/
  | held
  | connected
  deriving DecidableEq, Repr

/-- A call as its slot shows it: whether it is given a handle, and the call. -/
structure SlotCall where
  held : Bool
  fn : ClientFn
  deriving DecidableEq, Repr

/-- A returned handle shows only that it is one. -/
def ClientFn.blank : ClientFn → ClientFn
  | .init res => .init (res.map fun _ => 0)
  | fn => fn

inductive SlotCommand where
  | open (tlsStruct : Bool) (a : Answers)
  | close
  | use (db : Result Bytes) (a : Answers)
  /-- `status` without an output -/
  | report (a : Answers)
  /-- `status` with one -/
  | value (a : Answers)
  /-- its line in the report about all connections -/
  | line (ok : Bool)
  | query (a : Answers)

/-- The next phase, the calls made on the way, the first one first, and the result. -/
structure Reaction where
  phase : Phase
  calls : List SlotCall
  result : Result Unit

/-- A call on the handle of the slot. -/
def SlotCall.on (fn : ClientFn) : SlotCall := ⟨true, fn⟩

open SlotCall (on)

namespace Phase

/-- What is called to be rid of the connection. -/
def closing : Phase → List SlotCall
  | connected => [on .close]
  | _ => []

def closed : Phase → Phase
  | connected => free
  | s => s

def openReaction (tlsStruct : Bool) (a : Answers) (s : Phase) : Reaction :=
  let made : List SlotCall := s.closing ++
    [⟨s.closed == held, .init (if a.init then some 0 else none)⟩]
  if a.init then
    if tlsStruct then ⟨held, made, .raised .tlsStruct⟩
    else
      let made := made ++ [on .options, on (.realConnect a.connect)]
      if a.connect then
        let made := made ++ [on (.stat a.stat)]
        if a.stat then ⟨connected, made, .ok ()⟩ else ⟨held, made ++ [on .error], .raised .client⟩
      else ⟨held, made ++ [on .error], .raised .client⟩
  else ⟨free, made, .raised .cannotInit⟩

/-- What follows on a ping that goes well; otherwise the connection is given up. -/
def pinged (ok : Bool) (calls : List SlotCall) (result : Result Unit) : Reaction :=
  if ok then ⟨connected, on (.ping true) :: calls, result⟩
  else ⟨held, [on (.ping false), on .error], .raised .client⟩

def useReaction (db : Result Bytes) (a : Answers) : Reaction :=
  match db with
  | .ok _ =>
    if a.selectDb then pinged a.ping [on (.selectDb true)] (.ok ())
    else pinged a.ping [on (.selectDb false), on .error] (.raised .client)
  | r => pinged a.ping [] (r >>= fun _ => .ok ())

def valueReaction (a : Answers) : Reaction :=
  if a.ping then
    ⟨if a.stat then connected else held, [on (.ping true), on (.stat a.stat)], .ok ()⟩
  else ⟨held, [on (.ping false)], .ok ()⟩

/-- The calls behind an accepted query. -/
def fetchCalls : Stored → List SlotCall
  | .noRows => [on .storeResult, on .fieldCount, on .affectedRows]
  | .failed => [on .storeResult, on .fieldCount, on .error]
  | .rows _ => [on .storeResult]

def fetchResult : Stored → Result Unit
  | .noRows => .ok ()
  | .failed => .raised .client
  | .rows output => output

def queryReaction (a : Answers) : Reaction :=
  let escapes := List.replicate a.escapes (on .escape)
  match a.prepared with
  | .ok stmt =>
    if a.results = 0 then
      pinged a.ping (escapes ++ [on (.query stmt 0), on .error]) (.raised .client)
    else
      pinged a.ping (escapes ++ on (.query stmt a.results) :: fetchCalls a.stored)
        (fetchResult a.stored)
  | r => pinged a.ping escapes (r >>= fun _ => .ok ())

def react (s : Phase) : SlotCommand → Reaction
  | .open tlsStruct a => s.openReaction tlsStruct a
  | .close => ⟨s.closed, s.closing, .ok ()⟩
  | .use db a => if s = connected then useReaction db a else ⟨s, [], .raised .notConnected⟩
  | .report a =>
    if s = connected then pinged a.ping [on .info] (.ok ()) else ⟨s, [], .ok ()⟩
  | .value a => if s = connected then valueReaction a else ⟨s, [], .ok ()⟩
  | .line ok =>
    if s = connected then
      if ok then ⟨connected, [on (.ping true), on .info], .ok ()⟩
      else ⟨held, [on (.ping false), on .error], .ok ()⟩
    else ⟨s, [], .ok ()⟩
  | .query a => if s = connected then queryReaction a else ⟨s, [], .raised .notConnected⟩

end Phase

/-- What has been seen of a slot: its phase, and the calls made on it, the first one first. -/
structure SlotView where
  phase : Phase
  calls : List SlotCall
  deriving DecidableEq

def SlotView.take (c : SlotCommand) (v : SlotView) : SlotView :=
  ⟨(v.phase.react c).phase, v.calls ++ (v.phase.react c).calls⟩

/-! ### A slot of the table -/

def ConnInfo.phase (s : ConnInfo) : Phase :=
  if s.isopen then .connected else if s.conn.isSome then .held else .free

def callsOn (i : Slot) : List Entry → List SlotCall
  | [] => []
  | .call j conn fn :: older =>
    callsOn i older ++ if j = i then [⟨conn.isSome, fn.blank⟩] else []
  | _ :: older => callsOn i older

def World.view (i : Slot) (w : World) : SlotView := ⟨(w.c i).phase, callsOn i w.log⟩

/-- What a branch that is addressed to a slot asks of it. -/
def slotCommand (q : QueryType) (inp : Input) (a : Answers) : Option SlotCommand :=
  match q with
  | .OPEN => some (.open (isTlsStruct (inp.args[3]?.getD none)) a)
  | .CLOSE => some .close
  | .USE =>
    match inp.command with
    | some (some query) => some (.use (database query inp) a)
    | _ => none
  | .STATUS => some (if inp.nlhs < 1 then .report a else .value a)
  | .CMD => some (.query a)
  | _ => none

theorem zero_lt_maxConn : 0 < maxConn := by decide

def firstSlot : Slot := ⟨0, zero_lt_maxConn⟩

theorem firstSlot_eq : firstSlot = 0 := rfl

/-- What the report about all connections asks of slot `i`. -/
def reportOf (w : World) (a : Answers) (i : Slot) : Option SlotCommand :=
  let nconn := ((List.finRange maxConn).filter fun j => (w.c j).isopen).length
  if nconn = 0 then none
  else if nconn = 1 ∧ (w.c firstSlot).isopen then if i = firstSlot then some (.report a) else none
  else some (.line (a.pings i))

/-- What a command asks of slot `i`. -/
def askedOf (w : World) (s : Input × Answers) (i : Slot) : Option SlotCommand :=
  match parse w s.1 with
  | .ok (q, k) =>
    if q = .CLOSE_ALL then some .close
    else if q = .STATUS ∧ s.1.nlhs < 1 ∧ s.1.id.isAbsent = true then reportOf w s.2 i
    else if k = i then slotCommand q s.1 s.2
    else none
  | _ => none

/-! ### Seeing a slot change -/

section View

variable {w : World} {i : Slot}

theorem callsOn_self (conn : Option Handle) (fn : ClientFn) (log : List Entry) :
    callsOn i (.call i conn fn :: log) = callsOn i log ++ [⟨conn.isSome, fn.blank⟩] := by
  rw [callsOn, if_pos rfl]

theorem callsOn_append {new log : List Entry} (h : ∀ e ∈ new, e.slot ≠ i) :
    callsOn i (new ++ log) = callsOn i log := by
  induction new with
  | nil => rfl
  | cons e new ih =>
    have ih := ih fun x hx => h x (List.mem_cons_of_mem e hx)
    cases e with
    | call j conn fn =>
      have hj : j ≠ i := h (.call j conn fn) List.mem_cons_self
      rw [List.cons_append, callsOn, ih, if_neg hj, List.append_nil]
    | _ => exact ih

/-- What happens to another slot is not seen. -/
theorem OnlySlot.view_of_ne {j : Slot} {w' : World} (h : OnlySlot j w w') (hj : i ≠ j) :
    w'.view i = w.view i := by
  obtain ⟨hc, new, hlog, hnew⟩ := h
  rw [World.view, World.view, hc i hj, hlog, callsOn_append]
  intro e he
  rw [hnew e he]
  exact Ne.symm hj

/-- A call on a slot that holds a handle. -/
theorem view_call (hc : (w.c i).conn ≠ none) (fn : ClientFn) :
    (w.call i fn).view i = ⟨(w.view i).phase, (w.view i).calls ++ [on fn.blank]⟩ := by
  rw [World.view, World.call_log, callsOn_self, Option.isSome_iff_ne_none.mpr hc]
  rfl

/-- Several calls on it. -/
theorem view_calls (hc : (w.c i).conn ≠ none) (fns : List ClientFn) :
    (fns.foldl (fun w fn => w.call i fn) w).view i
      = ⟨(w.view i).phase, (w.view i).calls ++ fns.map fun fn => on fn.blank⟩ := by
  induction fns generalizing w with
  | nil => rw [List.map_nil, List.append_nil]; rfl
  | cons fn fns ih =>
    have hcall := ih (w := w.call i fn) hc
    rw [view_call hc] at hcall
    rw [List.foldl_cons, hcall, List.map_cons, List.append_assoc, List.singleton_append]

theorem view_drop (hc : (w.c i).conn ≠ none) :
    (w.drop i).view i = ⟨.held, (w.view i).calls⟩ := by
  have hsome : (w.c i).conn.isSome = true := Option.isSome_iff_ne_none.mpr hc
  rw [World.view, World.drop_c_self, World.drop_log, ConnInfo.phase, if_neg Bool.false_ne_true,
    if_pos hsome]
  rfl

theorem view_success :
    ((w.set i { w.c i with isopen := true }).note (.success i)).view i
      = ⟨.connected, (w.view i).calls⟩ := by
  rw [World.view, World.note_c, World.set_c_self, World.note_log, World.set_log]
  rfl

theorem phase_connected_iff {s : ConnInfo} : s.phase = .connected ↔ s.isopen = true := by
  unfold ConnInfo.phase
  split
  · next ho => exact iff_of_true rfl ho
  · next ho =>
    refine iff_of_false ?_ ho
    split <;> exact Phase.noConfusion

theorem connected_iff : (w.view i).phase = .connected ↔ (w.c i).isopen = true :=
  phase_connected_iff

theorem view_closeIfOpen (hw : (w.c i).isopen = true → (w.c i).conn ≠ none) :
    (w.closeIfOpen i).view i
      = ⟨(w.view i).phase.closed, (w.view i).calls ++ (w.view i).phase.closing⟩ := by
  cases ho : (w.c i).isopen with
  | true =>
    have hphase : (w.c i).phase = .connected := phase_connected_iff.mpr ho
    have hsome : (w.c i).conn.isSome = true := Option.isSome_iff_ne_none.mpr (hw ho)
    rw [World.closeIfOpen_of_open ho, World.view, World.set_c_self, World.set_log, World.call_log,
      callsOn_self, World.view, hphase, hsome]
    rfl
  | false =>
    have hphase : (w.c i).phase ≠ .connected := fun h => by
      rw [phase_connected_iff, ho] at h
      cases h
    rw [World.closeIfOpen_of_not ho, World.view]
    cases hp : (w.c i).phase with
    | connected => exact absurd hp hphase
    | _ => simp [Phase.closed, Phase.closing]

theorem view_init (ho : (w.c i).isopen = false) (ok : Bool) :
    (w.init i ok).view i = ⟨if ok then .held else .free, (w.view i).calls ++
      [⟨(w.view i).phase == .held, .init (if ok then some 0 else none)⟩]⟩ := by
  rw [World.view, World.init_c_self, World.init_log, callsOn_self, World.view, ConnInfo.phase,
    ConnInfo.phase, ho]
  cases ok with
  | true => cases (w.c i).conn <;> rfl
  | false => cases (w.c i).conn <;> rfl

end View

/-! ### The branches -/

/-- A branch shows on slot `i` what the automaton does, and has its result. -/
structure Shows (i : Slot) (w : World) (x : World × Result Unit) (r : Reaction) : Prop where
  view : x.1.view i = ⟨r.phase, (w.view i).calls ++ r.calls⟩
  result : x.2 = r.result

section Branches

variable {w : World} {i : Slot}

theorem openBranch_shows (hw : OpenHeld w) (inp : Input) (a : Answers) :
    Shows i w (openBranch w i inp a)
      ((w.view i).phase.openReaction (isTlsStruct (inp.args[3]?.getD none)) a) := by
  have hclosed := view_closeIfOpen (w := w.note (.attempt i)) (i := i) hw.ne_none
  have ho := World.closeIfOpen_isopen (w.note (.attempt i)) i
  unfold openBranch Phase.openReaction
  generalize (w.note (.attempt i)).closeIfOpen i = w₁ at hclosed ho ⊢
  have hinit := view_init ho a.init
  rw [hclosed] at hinit
  have hconn : ((w₁.init i a.init).c i).conn = none ↔ a.init = false := by
    rw [World.init_c_self]
    cases a.init with
    | true => exact iff_of_false (Option.some_ne_none _) (by decide)
    | false => exact iff_of_true rfl rfl
  dsimp only
  generalize w₁.init i a.init = w₂ at hinit hconn ⊢
  cases hi : a.init with
  | false =>
    rw [hi] at hinit
    rw [if_pos (hconn.mpr hi), if_neg Bool.false_ne_true]
    exact ⟨by rw [hinit]; simp; rfl, rfl⟩
  | true =>
    have hc : (w₂.c i).conn ≠ none := fun h => by
      rw [hconn.mp h] at hi
      cases hi
    rw [hi] at hinit
    rw [if_neg hc, if_pos rfl]
    cases isTlsStruct (inp.args[3]?.getD none) with
    | true =>
      rw [if_pos rfl, if_pos rfl]
      exact ⟨by rw [hinit]; simp; rfl, rfl⟩
    | false =>
      rw [if_neg Bool.false_ne_true, if_neg Bool.false_ne_true]
      cases a.connect with
      | false =>
        have hcalls := view_calls hc [.options, .realConnect false, .error]
        exact ⟨hcalls.trans (by rw [hinit]; simp; rfl), rfl⟩
      | true =>
        rw [if_pos rfl, if_pos rfl]
        cases a.stat with
        | false =>
          have hcalls := view_calls hc [.options, .realConnect true, .stat false, .error]
          exact ⟨hcalls.trans (by rw [hinit]; simp; rfl), rfl⟩
        | true =>
          have hcalls := view_calls hc [.options, .realConnect true, .stat true]
          refine ⟨view_success.trans ?_, rfl⟩
          have heq := congrArg SlotView.calls hcalls
          rw [hinit] at heq
          refine congrArg (SlotView.mk .connected) (heq.trans ?_)
          simp
          rfl

/-- A ping that goes well is followed by what `continue_` shows. -/
theorem pinged_shows (hc : (w.c i).conn ≠ none) (ok : Bool)
    {continue_ : World → World × Result Unit} {calls : List SlotCall} {result : Result Unit}
    (h : Shows i (w.call i (.ping true)) (continue_ (w.call i (.ping true)))
      ⟨.connected, calls, result⟩) :
    Shows i w (w.pinged i ok continue_) (Phase.pinged ok calls result) := by
  have hping := view_call hc (.ping ok)
  cases ok with
  | true =>
    refine ⟨?_, h.result⟩
    rw [World.pinged, if_pos rfl, h.view, hping, List.append_assoc]
    rfl
  | false =>
    have hdrop := view_drop (w := w.call i (.ping false)) hc
    have hconn : (((w.call i (.ping false)).drop i).c i).conn ≠ none := by
      rw [World.drop_c_self]
      exact hc
    refine ⟨(view_call hconn .error).trans ?_, rfl⟩
    rw [hdrop, hping, List.append_assoc]
    rfl

/-- The calls behind a ping on a connection. -/
theorem calls_shows (ho : (w.c i).isopen = true) (hc : (w.c i).conn ≠ none) (fns : List ClientFn)
    (result : Result Unit) :
    Shows i w (fns.foldl (fun w fn => w.call i fn) w, result)
      ⟨.connected, fns.map fun fn => on fn.blank, result⟩ := by
  refine ⟨?_, rfl⟩
  have hphase : (w.view i).phase = .connected := connected_iff.mpr ho
  rw [view_calls hc, hphase]

theorem useBranch_shows (hw : OpenHeld w) (query : CStr) (inp : Input) (a : Answers) :
    Shows i w (useBranch w i query inp a)
      ((w.view i).phase.react (.use (database query inp) a)) := by
  unfold useBranch Phase.react
  by_cases ho : (w.c i).isopen = true
  · have hc := hw.ne_none ho
    have hphase : (w.view i).phase = .connected := connected_iff.mpr ho
    rw [if_pos ho]
    dsimp only
    rw [if_pos hphase]
    unfold Phase.useReaction
    cases database query inp with
    | ok db =>
      cases a.selectDb with
      | true =>
        exact pinged_shows hc a.ping (calls_shows (w := w.call i (.ping true)) ho hc
          [.selectDb true] (.ok ()))
      | false =>
        exact pinged_shows hc a.ping (calls_shows (w := w.call i (.ping true)) ho hc
          [.selectDb false, .error] (.raised .client))
    | _ => exact pinged_shows hc a.ping (calls_shows (w := w.call i (.ping true)) ho hc [] _)
  · have hphase : ¬(w.view i).phase = .connected := fun h => ho (connected_iff.mp h)
    rw [if_neg ho]
    dsimp only
    rw [if_neg hphase]
    exact ⟨by rw [List.append_nil], rfl⟩

/-- The status of one slot. -/
theorem statusBranch_shows (hw : OpenHeld w) {inp : Input}
    (hone : ¬(inp.nlhs < 1 ∧ inp.id.isAbsent = true)) (a : Answers) :
    Shows i w (statusBranch w i inp a)
      ((w.view i).phase.react (if inp.nlhs < 1 then .report a else .value a)) := by
  have hclosed : ¬(w.c i).isopen = true → Shows i w (w, .ok ()) ⟨(w.view i).phase, [], .ok ()⟩ :=
    fun _ => ⟨by rw [List.append_nil], rfl⟩
  unfold statusBranch
  by_cases hn : inp.nlhs < 1
  · have hid : ¬inp.id.isAbsent = true := fun h => hone ⟨hn, h⟩
    rw [if_pos hn, if_neg hid, if_pos hn, Phase.react]
    by_cases ho : (w.c i).isopen = true
    · have hc := hw.ne_none ho
      rw [if_pos ho, if_pos (connected_iff.mpr ho)]
      exact pinged_shows hc a.ping (calls_shows (w := w.call i (.ping true)) ho hc [.info] (.ok ()))
    · rw [if_neg ho, if_neg fun h => ho (connected_iff.mp h)]
      exact hclosed ho
  · rw [if_neg hn, if_neg hn, Phase.react]
    by_cases ho : (w.c i).isopen = true
    · have hc := hw.ne_none ho
      rw [if_pos ho, if_pos (connected_iff.mpr ho), Phase.valueReaction]
      cases a.ping with
      | false =>
        have hdrop := view_drop (w := w.call i (.ping false)) hc
        exact ⟨hdrop.trans (by rw [view_call hc]; rfl), rfl⟩
      | true =>
        have hcalls := fun ok => view_calls hc [.ping true, .stat ok]
        have hphase : (w.view i).phase = .connected := connected_iff.mpr ho
        cases a.stat with
        | true => exact ⟨(hcalls true).trans (by rw [hphase]; rfl), rfl⟩
        | false =>
          have hdrop := view_drop (w := (w.call i (.ping true)).call i (.stat false)) hc
          exact ⟨hdrop.trans (congrArg (SlotView.mk .held) (congrArg SlotView.calls (hcalls false))), rfl⟩
    · rw [if_neg ho, if_neg fun h => ho (connected_iff.mp h)]
      exact hclosed ho

theorem escapes_eq (n : Nat) :
    Nat.repeat (fun w => w.call i .escape) n w
      = (List.replicate n ClientFn.escape).foldl (fun w fn => w.call i fn) w := by
  induction n with
  | zero => rfl
  | succ n ih => rw [Nat.repeat, ih, List.replicate_succ', List.foldl_append]; rfl

theorem cmdBranch_shows (hw : OpenHeld w) (a : Answers) :
    Shows i w (cmdBranch w i a) ((w.view i).phase.react (.query a)) := by
  unfold cmdBranch Phase.react
  by_cases ho : (w.c i).isopen = true
  · have hc := hw.ne_none ho
    have hphase : (w.view i).phase = .connected := connected_iff.mpr ho
    have hshow := fun fns result => calls_shows (w := w.call i (.ping true)) ho hc
      (List.replicate a.escapes .escape ++ fns) result
    simp only [List.foldl_append, ← escapes_eq, List.map_append, List.map_replicate] at hshow
    rw [if_pos ho]
    dsimp only
    rw [if_pos hphase]
    unfold Phase.queryReaction
    cases a.prepared with
    | ok stmt =>
      dsimp only
      by_cases hr : a.results = 0
      · rw [if_pos hr]
        refine pinged_shows hc a.ping ?_
        rw [if_pos hr, hr]
        exact hshow [.query stmt 0, .error] (.raised .client)
      · rw [if_neg hr]
        refine pinged_shows hc a.ping ?_
        rw [if_neg hr]
        unfold fetch
        cases a.stored with
        | noRows =>
          exact hshow [.query stmt a.results, .storeResult, .fieldCount, .affectedRows] (.ok ())
        | failed =>
          exact hshow [.query stmt a.results, .storeResult, .fieldCount, .error] (.raised .client)
        | rows output => exact hshow [.query stmt a.results, .storeResult] output
    | _ =>
      refine pinged_shows hc a.ping ?_
      have hnone := hshow []
      rw [List.map_nil, List.append_nil] at hnone
      exact hnone _
  · have hphase : ¬(w.view i).phase = .connected := fun h => ho (connected_iff.mp h)
    rw [if_neg ho]
    dsimp only
    rw [if_neg hphase]
    exact ⟨by rw [List.append_nil], rfl⟩

theorem closeBranch_view (hw : OpenHeld w) :
    (closeBranch w i).view i = (w.view i).take .close :=
  view_closeIfOpen (w := w.note (.release i)) hw.ne_none

/-- A line of the report about all connections. -/
theorem reportSlot_view (hw : OpenHeld w) (a : Answers) :
    (reportSlot a w i).view i = (w.view i).take (.line (a.pings i)) := by
  unfold reportSlot SlotView.take Phase.react
  by_cases ho : (w.c i).isopen = true
  · have hc := hw.ne_none ho
    have hphase : (w.view i).phase = .connected := connected_iff.mpr ho
    rw [if_pos ho]
    dsimp only
    rw [if_pos hphase]
    cases a.pings i with
    | true =>
      have hcalls := view_calls hc [.ping true, .info]
      rw [hphase] at hcalls
      exact hcalls
    | false =>
      have hdrop := view_drop (w := w.call i (.ping false)) hc
      have hconn : (((w.call i (.ping false)).drop i).c i).conn ≠ none := by
        rw [World.drop_c_self]
        exact hc
      refine (view_call hconn .error).trans ?_
      rw [hdrop, view_call hc, List.append_assoc]
      rfl
  · have hphase : ¬(w.view i).phase = .connected := fun h => ho (connected_iff.mp h)
    rw [if_neg ho]
    dsimp only
    rw [if_neg hphase, List.append_nil]

end Branches

/-! ### A command -/

section Command

/-- A loop over the slots does to each what it does to it alone. -/
theorem foldl_view {q : QueryType} {f : World → Slot → World} {i : Slot}
    (hf : ∀ w j, TableInv w → SlotSteps q j w (f w j)) {c : SlotCommand}
    (hview : ∀ w, TableInv w → (f w i).view i = (w.view i).take c) (slots : List Slot)
    (hslots : slots.Nodup) {w : World} (hw : TableInv w) :
    (slots.foldl f w).view i = if i ∈ slots then (w.view i).take c else w.view i := by
  induction slots generalizing w with
  | nil => rfl
  | cons j slots ih =>
    obtain ⟨hj, hslots⟩ := List.nodup_cons.mp hslots
    have hstep := hf w j hw
    rw [List.foldl_cons, ih hslots (hw.steps hstep.steps)]
    by_cases hi : i = j
    · subst hi
      rw [if_neg hj, if_pos List.mem_cons_self, hview w hw]
    · rw [hstep.onlySlot.view_of_ne hi]
      simp only [List.mem_cons, hi, false_or]

theorem closeAllBranch_view {w : World} (hw : TableInv w) (i : Slot) :
    (closeAllBranch w).view i = (w.view i).take .close := by
  have hfold := foldl_view (i := i) (fun w j _ => closeBranch_steps (Or.inr rfl) w j)
    (fun w hw => closeBranch_view hw.opened) (List.finRange maxConn) (List.nodup_finRange _) hw
  rw [if_pos (List.mem_finRange i)] at hfold
  exact hfold

/-- The report about all connections. -/
theorem statusBranch_view {w : World} (hw : TableInv w) {inp : Input} (hn : inp.nlhs < 1)
    (hid : inp.id.isAbsent = true) (a : Answers) (i : Slot) :
    (statusBranch w 0 inp a).1.view i
      = (reportOf w a i).elim (w.view i) fun c => (w.view i).take c := by
  unfold statusBranch reportOf
  rw [firstSlot_eq, if_pos hn, if_pos hid]
  dsimp only
  split
  · rfl
  · split
    · next hone =>
      have hc := hw.opened.ne_none hone.2
      have hshow : Shows 0 w (w.pinged 0 a.ping fun w => (w.call 0 .info, .ok ()))
          (Phase.pinged a.ping [on .info] (.ok ())) :=
        pinged_shows hc a.ping (calls_shows (w := w.call 0 (.ping true)) hone.2 hc [.info] (.ok ()))
      by_cases hi : i = 0
      · subst hi
        rw [if_pos rfl]
        refine hshow.view.trans ?_
        rw [Option.elim_some, SlotView.take, Phase.react, if_pos (connected_iff.mpr hone.2)]
      · rw [if_neg hi]
        have hsteps : SlotSteps .STATUS 0 w (w.pinged 0 a.ping fun w => (w.call 0 .info, .ok ())).1 :=
          pinged_steps hw.opened hone.2 a.ping (.single (.plain rfl hc))
        exact hsteps.onlySlot.view_of_ne hi
    · have hfold := foldl_view (i := i) (fun w j hw => reportSlot_steps hw a)
        (fun w hw => reportSlot_view hw.opened a) (List.finRange maxConn) (List.nodup_finRange _) hw
      rw [if_pos (List.mem_finRange i)] at hfold
      exact hfold

/-- A branch that is addressed to slot `i`, at slot `i`. -/
theorem branch_view {w : World} (hw : TableInv w) {q : QueryType} {inp : Input}
    (hall : ¬AllSlots q inp) (a : Answers) (i : Slot) :
    (branch w q i inp a).1.view i
      = (slotCommand q inp a).elim (w.view i) fun c => (w.view i).take c := by
  cases q with
  | OPEN => exact (openBranch_shows hw.opened inp a).view
  | CLOSE => exact closeBranch_view hw.opened
  | CLOSE_ALL => exact absurd (Or.inl rfl) hall
  | USE =>
    unfold branch slotCommand
    cases inp.command with
    | none => rfl
    | some command =>
      cases command with
      | none => rfl
      | some query => exact (useBranch_shows hw.opened query inp a).view
  | STATUS => exact (statusBranch_shows hw.opened (fun h => hall (Or.inr ⟨rfl, h⟩)) a).view
  | CMD => exact (cmdBranch_shows hw.opened a).view
  | _ => rfl

/-- **What a command does to a slot** is what the automaton does with what is asked of the slot. -/
theorem view_mexFunction {w : World} (hw : TableInv w) (s : Input × Answers) (i : Slot) :
    (mexFunction w s.1 s.2).1.view i
      = (askedOf w s i).elim (w.view i) fun c => (w.view i).take c := by
  unfold askedOf
  by_cases hp : ∃ r, parse w s.1 = .ok r
  · obtain ⟨⟨q, k⟩, hp⟩ := hp
    rw [mexFunction_of_parse hp, hp]
    dsimp only
    by_cases hq : q = .CLOSE_ALL
    · rw [if_pos hq, hq]
      exact closeAllBranch_view hw i
    · rw [if_neg hq]
      by_cases hstatus : q = .STATUS ∧ s.1.nlhs < 1 ∧ s.1.id.isAbsent = true
      · rw [if_pos hstatus, hstatus.1, parse_absent hp hstatus.2.2]
        exact statusBranch_view hw hstatus.2.1 hstatus.2.2 s.2 i
      · have hall : ¬AllSlots q s.1 := fun h => h.elim hq hstatus
        rw [if_neg hstatus]
        by_cases hk : k = i
        · rw [if_pos hk, hk]
          exact branch_view hw hall s.2 i
        · rw [if_neg hk]
          exact (branch_steps hw hall s.2).onlySlot.view_of_ne (Ne.symm hk)
  · have hno : ∀ r, parse w s.1 ≠ .ok r := fun r hr => hp ⟨r, hr⟩
    rw [mexFunction_of_not_parse hno]
    cases hout : parse w s.1 with
    | ok r => exact absurd hout (hno r)
    | _ => rfl

/-- What a command comes to that is addressed to slot `i`. -/
theorem branch_result {w : World} (hw : TableInv w) {q : QueryType} {inp : Input}
    (hall : ¬AllSlots q inp) {a : Answers} {i : Slot} {c : SlotCommand}
    (hc : slotCommand q inp a = some c) :
    (branch w q i inp a).2 = ((w.view i).phase.react c).result := by
  cases q with
  | OPEN =>
    cases hc
    exact (openBranch_shows hw.opened inp a).result
  | CLOSE =>
    cases hc
    rfl
  | CLOSE_ALL => exact absurd (Or.inl rfl) hall
  | USE =>
    unfold slotCommand at hc
    unfold branch
    cases hcommand : inp.command with
    | none =>
      rw [hcommand] at hc
      cases hc
    | some command =>
      rw [hcommand] at hc
      cases command with
      | none => cases hc
      | some query =>
        cases hc
        exact (useBranch_shows hw.opened query inp a).result
  | STATUS =>
    cases hc
    exact (statusBranch_shows hw.opened (fun h => hall (Or.inr ⟨rfl, h⟩)) a).result
  | CMD =>
    cases hc
    exact (cmdBranch_shows hw.opened a).result
  | _ => cases hc

end Command

/-! ### Runs -/

/-- The connection table is made of twenty slots. -/
def connections : Parts World (Input × Answers) Slot SlotView SlotCommand where
  start := World.start
  step s w := (mexFunction w s.1 s.2).1
  inv := TableInv
  view := World.view
  asked := askedOf
  part := SlotView.take
  inv_start := tableInv_start
  inv_step _ _ hw := mexFunction_induction hw hw fun _ _ _ _ hv hstep _ => hv.step hstep
  view_step s _ i hw := view_mexFunction hw s i

theorem connections_run (steps : List (Input × Answers)) : connections.run steps = run steps := by
  induction steps with
  | nil => rfl
  | cons s older ih => rw [Parts.run, run, ih]; rfl

/-- The slot after what it has been asked, the last command first. -/
def slotAfter (commands : List SlotCommand) : SlotView := commands.foldr SlotView.take ⟨.free, []⟩

/-- **Every run refines twenty automata**: a slot shows what its automaton does with what has been asked
of it, and a command that is addressed to a slot has the result that the automaton gives. -/
theorem run_refines (steps : List (Input × Answers)) (i : Slot) :
    (run steps).view i = slotAfter (connections.commands i steps) ∧
    ∀ inp a q c, parse (run steps) inp = .ok (q, i) → ¬AllSlots q inp →
      slotCommand q inp a = some c →
      (mexFunction (run steps) inp a).2
        = ((slotAfter (connections.commands i steps)).phase.react c).result := by
  have hview : (run steps).view i = slotAfter (connections.commands i steps) := by
    rw [← connections_run]
    exact connections.view_run i steps
  refine ⟨hview, fun inp a q c hp hall hc => ?_⟩
  rw [mexFunction_of_parse hp, branch_result (tableInv_run steps) hall hc, hview]

/-! ### Interleaving -/

/-- Neither the scan for a free slot nor the report about all connections. -/
def Directed (inp : Input) : Prop :=
  inp.id ≠ .number (-1) ∧
    ¬(queryType inp.command = .ok .STATUS ∧ inp.nlhs < 1 ∧ inp.id.isAbsent = true)

theorem connectionId_directed {id : IdArg} (h : id ≠ .number (-1)) : connectionId id ≠ .ok none := by
  unfold connectionId
  split
  · exact fun h => by cases h
  · exact fun h => by cases h
  · next n =>
    split
    · next hn => exact absurd (congrArg IdArg.number hn) h
    · split
      · exact fun h => by cases h
      · exact fun h => by cases h

theorem parse_directed {inp : Input} (h : inp.id ≠ .number (-1)) (w w' : World) :
    parse w inp = parse w' inp := by
  unfold parse
  apply Outcome.bind_congr
  intro cid hcid
  cases cid with
  | none => exact absurd hcid (connectionId_directed h)
  | some i => rfl

theorem queryType_of_parse {w : World} {inp : Input} {q : QueryType} {i : Slot}
    (h : parse w inp = .ok (q, i)) : queryType inp.command = .ok q := by
  obtain ⟨cid, -, h⟩ := Outcome.bind_eq_ok h
  obtain ⟨q', hq, h⟩ := Outcome.bind_eq_ok h
  split at h
  · cases h
  · obtain ⟨k, -, h⟩ := Outcome.bind_eq_ok h
    cases h
    exact hq

/-- What a directed command asks does not depend on the table. -/
theorem askedOf_directed {s : Input × Answers} (h : Directed s.1) (w w' : World) (i : Slot) :
    askedOf w s i = askedOf w' s i := by
  unfold askedOf
  rw [parse_directed h.1 w w']
  cases hp : parse w' s.1 with
  | ok r =>
    have hstatus : ¬(r.1 = .STATUS ∧ s.1.nlhs < 1 ∧ s.1.id.isAbsent = true) := by
      intro hs
      refine h.2 ⟨?_, hs.2⟩
      rw [queryType_of_parse (q := r.1) (i := r.2) hp, hs.1]
    dsimp only
    rw [if_neg hstatus, if_neg hstatus]
  | _ => rfl

/-- What the commands of a run ask of slot `i`. -/
def asks (i : Slot) (steps : List (Input × Answers)) : List SlotCommand :=
  steps.filterMap fun s => askedOf World.start s i

/-- A command that gets to slot `i` has its result from what the slot shows. -/
theorem result_congr {w w' : World} (hw : TableInv w) (hw' : TableInv w') {s : Input × Answers}
    (hs : Directed s.1) {i : Slot} (hview : w.view i = w'.view i) {c : SlotCommand}
    (hc : askedOf w s i = some c) : (mexFunction w s.1 s.2).2 = (mexFunction w' s.1 s.2).2 := by
  unfold askedOf at hc
  have hparse := parse_directed hs.1 w w'
  cases hp : parse w s.1 with
  | ok r =>
    obtain ⟨q, k⟩ := r
    rw [hp] at hc hparse
    dsimp only at hc
    rw [mexFunction_of_parse hp, mexFunction_of_parse hparse.symm]
    split at hc
    · next hq =>
      rw [hq]
      rfl
    · next hq =>
      have hstatus : ¬(q = .STATUS ∧ s.1.nlhs < 1 ∧ s.1.id.isAbsent = true) := by
        intro h
        exact hs.2 ⟨by rw [queryType_of_parse hp, h.1], h.2⟩
      rw [if_neg hstatus] at hc
      split at hc
      · next hk =>
        have hall : ¬AllSlots q s.1 := fun h => h.elim hq hstatus
        rw [hk, branch_result hw hall hc, branch_result hw' hall hc, hview]
      · cases hc
  | _ =>
    rw [hp] at hc
    cases hc

/-- **Interleaving does not matter**: two runs of directed commands that ask the same of a slot leave it
the same, and the next command that gets to it has the same result after both. -/
theorem view_interleaved {steps steps' : List (Input × Answers)} (h : ∀ s ∈ steps, Directed s.1)
    (h' : ∀ s ∈ steps', Directed s.1) {i : Slot} (hasks : asks i steps = asks i steps') :
    (run steps).view i = (run steps').view i ∧
    ∀ s : Input × Answers, Directed s.1 → (∃ c, askedOf (run steps) s i = some c) →
      (mexFunction (run steps) s.1 s.2).2 = (mexFunction (run steps') s.1 s.2).2 := by
  have hfixed : ∀ s : Input × Answers, Directed s.1 →
      connections.Fixed (fun s i => askedOf World.start s i) s :=
    fun s hs w _ i => askedOf_directed hs w World.start i
  have hview : (run steps).view i = (run steps').view i := by
    rw [← connections_run, ← connections_run]
    exact connections.view_run_congr (fun s hs => hfixed s (h s hs)) (fun s hs => hfixed s (h' s hs))
      hasks
  refine ⟨hview, ?_⟩
  rintro s hs ⟨c, hc⟩
  exact result_congr (tableInv_run steps) (tableInv_run steps') hs hview hc

/-- `mym(i, s)` -/
def commandAt (i : Slot) (s : CStr) : Input := ⟨.number i, some (some s), [], 0⟩

theorem directed_commandAt (i : Slot) (s : CStr) : Directed (commandAt i s) := by
  refine ⟨fun h => ?_, fun h => ?_⟩
  · have hi : ((i : Nat) : Int) = -1 := IdArg.number.inj h
    omega
  · cases h.2.2

theorem parse_commandAt (w : World) (k : Slot) (s : CStr) :
    parse w (commandAt k s) = .ok (classify s, k) := by
  have hk : connectionId (.number ((k : Nat) : Int)) = .ok (some k) := by
    have hne : ¬((k : Nat) : Int) = -1 := by omega
    have hlt : 0 ≤ ((k : Nat) : Int) ∧ ((k : Nat) : Int).toNat < maxConn := ⟨by omega, by simp⟩
    rw [connectionId, if_neg hne, dif_pos hlt]
    rfl
  unfold parse
  simp [commandAt, hk, queryType, pickSlot]

theorem askedOf_commandAt (w : World) (k i : Slot) (s : CStr) (a : Answers)
    (hs : classify s ≠ .CLOSE_ALL) : askedOf w (commandAt k s, a) i
      = if k = i then slotCommand (classify s) (commandAt k s) a else none := by
  rw [askedOf, parse_commandAt]
  dsimp only
  rw [if_neg hs, if_neg]
  exact fun h => by cases h.2.2

/-- Two slots are opened, and queried, in two orders. -/
theorem view_interleaved_two :
    (run [(commandAt 1 select, allWell select.1 1), (commandAt 0 select, allWell select.1 1),
        (commandAt 1 openCommand, allWell [] 1), (commandAt 0 openCommand, allWell [] 1)]).view 1
      = (run [(commandAt 0 select, allWell select.1 1), (commandAt 0 openCommand, allWell [] 1),
        (commandAt 1 select, allWell select.1 1), (commandAt 1 openCommand, allWell [] 1)]).view 1 := by
  have hopen : classify openCommand ≠ .CLOSE_ALL := by decide
  have hselect : classify select ≠ .CLOSE_ALL := by decide
  refine (view_interleaved (by simp [directed_commandAt]) (by simp [directed_commandAt]) ?_).1
  simp [asks, List.filterMap_cons, askedOf_commandAt, hopen, hselect]

end Mym
