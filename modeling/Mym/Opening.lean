import Mym.SerializeString
import Mym.Slots
import Mym.Substitution

/-!
# What a statement is sent to

The open branch as far as it makes up the arguments of `mysql_real_connect`, `hostport` of `mym.h`
and the TLS mode included, and what follows from it over a whole run.

There are two accounts of where a statement goes.  The server keeps a session for every handle,
and knows it from the calls of the client alone (`sessions`).  The user thinks of the slots,
and of the `open` and `use` commands that came back without an error (`meant`).  A statement is
sent into the session that is meant.
-/

namespace Mym

/-! ### The arguments -/

/-- `portsep` -/
def portSep : UInt8 := 58

/-- `true` -/
def trueWord : Bytes := [116, 114, 117, 101]
/-- `false` -/
def falseWord : Bytes := [102, 97, 108, 115, 101]

/-- `hostport`: what is left in the string, and the port. -/
def hostport : Option CStr → Option CStr × Result Int
  | none => (none, .ok 0)
  | some s =>
    if portSep ∈ s.1 then
      (some ⟨s.1.takeWhile (· != portSep), fun h => s.2 (List.takeWhile_subset _ h)⟩,
        atoi ⟨(s.1.dropWhile (· != portSep)).drop 1, fun h =>
          s.2 (List.dropWhile_subset _ (List.drop_subset 1 _ h))⟩)
    else (some s, .ok 0)

/-- `mode_option` -/
inductive SslMode where
  | disabled | preferred | required
  deriving DecidableEq, Repr

def sslMode : Option CStr → SslMode
  | none => .preferred
  | some s =>
    if strcaseEq s.1 trueWord then .required
    else if strcaseEq s.1 falseWord then .disabled
    else if s.1.contains 123 then .required
    else .preferred

/-- What `mysql_real_connect` is called with, and the mode that is set before. -/
structure ConnectArgs where
  host : Option CStr
  user : Option CStr
  pass : Option CStr
  port : Result Int
  mode : SslMode

def connectArgs (inp : Input) : ConnectArgs where
  host := (hostport (inp.args[0]?.getD none)).1
  user := inp.args[1]?.getD none
  pass := inp.args[2]?.getD none
  port := (hostport (inp.args[0]?.getD none)).2
  mode := sslMode (inp.args[3]?.getD none)

theorem dropWhile_isspace_digits (n : Nat) : (digits n).dropWhile isspace = digits n := by
  cases hd : digits n with
  | nil => rfl
  | cons b bs =>
    have hmem : b ∈ digits n := by
      rw [hd]
      exact List.mem_cons_self ..
    have hb : isDigit b = true := isDigit_of_mem_digits hmem
    have hspace : isspace b = false := by
      rw [isDigit, Bool.and_eq_true, decide_eq_true_iff, decide_eq_true_iff,
        UInt8.le_iff_toNat_le, UInt8.le_iff_toNat_le] at hb
      have hblank : b ≠ 32 := fun h => absurd hb.1 (by rw [h]; decide)
      have hhigh : ¬b ≤ 13 := fun h =>
        absurd (hb.1.trans (UInt8.le_iff_toNat_le.mp h)) (by decide)
      rw [isspace, beq_false_of_ne hblank, decide_eq_false hhigh, Bool.and_false]
      rfl
    rw [List.dropWhile_cons_of_neg (by rw [hspace]; exact Bool.false_ne_true)]

/-- A host with its port behind it is taken apart again. -/
theorem hostport_port {host s : CStr} {port : Nat} (hhost : portSep ∉ host.1)
    (hs : s.1 = host.1 ++ portSep :: digits port) (hport : port < 2 ^ 31) :
    hostport (some s) = (some host, .ok (port : Int)) := by
  have hmem : portSep ∈ s.1 := by
    rw [hs]
    exact List.mem_append_right _ (List.mem_cons_self ..)
  have hother : ∀ b ∈ host.1, (b != portSep) = true := fun b hb =>
    bne_iff_ne.mpr fun h => hhost (h ▸ hb)
  have hhead : s.1.takeWhile (· != portSep) = host.1 := by
    rw [hs, List.takeWhile_append_of_pos hother, List.takeWhile_cons_of_neg (by simp),
      List.append_nil]
  have htail : (s.1.dropWhile (· != portSep)).drop 1 = digits port := by
    rw [hs, List.dropWhile_append_of_pos hother, List.dropWhile_cons_of_neg (by simp)]
    rfl
  have hatoi : ∀ t : CStr, t.1 = digits port → atoi t = .ok (port : Int) := by
    intro t ht
    have hblank : (digits port).dropWhile isspace = digits port :=
      dropWhile_isspace_digits port
    have hparse : parseInt (digits port) = (port : Int) := parseInt_numeral (port : Int)
    unfold atoi
    rw [ht, hblank, hparse]
    exact if_pos ⟨by omega, by omega⟩
  simp only [hostport, if_pos hmem]
  exact Prod.ext (congrArg some (Subtype.ext hhead)) (hatoi _ htail)

/-- TLS is off only where the command says so. -/
theorem sslMode_disabled_iff {ssl : Option CStr} :
    sslMode ssl = .disabled ↔ ∃ s, ssl = some s ∧ strcaseEq s.1 falseWord = true := by
  cases ssl with
  | none =>
    refine ⟨fun h => ?_, ?_⟩
    · cases h
    · rintro ⟨_, h, -⟩
      cases h
  | some s =>
    have hboth : strcaseEq s.1 falseWord = true → strcaseEq s.1 trueWord = false := by
      intro hfalse
      rw [strcaseEq, beq_iff_eq] at hfalse
      rw [strcaseEq, hfalse]
      rfl
    simp only [sslMode, Option.some.injEq, exists_eq_left']
    cases htrue : strcaseEq s.1 trueWord with
    | true =>
      refine ⟨fun h => ?_, fun h => ?_⟩
      · cases h
      · rw [hboth h] at htrue
        cases htrue
    | false =>
      cases strcaseEq s.1 falseWord with
      | true => exact ⟨fun _ => rfl, fun _ => rfl⟩
      | false =>
        refine ⟨fun h => ?_, fun h => ?_⟩
        · simp only [Bool.false_eq_true, if_false] at h
          split at h
          · cases h
          · cases h
        · cases h

/-! ### The server's sessions -/

structure ServerSession where
  args : ConnectArgs
  /-- the database that was selected -/
  db : Option Bytes

/-- The session of each handle. -/
abbrev Sessions := Handle → Option ServerSession

/-- The database that a `use` names. -/
def selectedDb (inp : Input) : Option Bytes :=
  match inp.command with
  | some (some query) =>
    match database query inp with
    | .ok db => some db
    | _ => none
  | _ => none

/-- What a call does to the sessions, made with the arguments that the command has for it. -/
def afterCall (inp : Input) (t : Sessions) : Entry → Sessions
  | .call _ _ (.init (some h)) => Function.update t h none
  | .call _ (some h) (.realConnect true) => Function.update t h (some ⟨connectArgs inp, none⟩)
  | .call _ (some h) (.selectDb true) =>
    Function.update t h ((t h).map fun x => { x with db := selectedDb inp })
  | .call _ (some h) .close => Function.update t h none
  | _ => t

/-- The sessions after the calls, the newest first. -/
def replay (inp : Input) (t : Sessions) (calls : List Entry) : Sessions :=
  calls.foldr (fun e t => afterCall inp t e) t

/-- What is in the log of `w'` and not yet in that of `w`. -/
def callsSince (w w' : World) : List Entry := w'.log.take (w'.log.length - w.log.length)

def sessions : List (Input × Answers) → Sessions
  | [] => fun _ => none
  | s :: older => replay s.1 (sessions older) (callsSince (run older) (run (s :: older)))

theorem callsSince_eq {w w' : World} {new : List Entry} (h : w'.log = new ++ w.log) :
    callsSince w w' = new := by
  rw [callsSince, h, List.length_append, Nat.add_sub_cancel, List.take_left]

/-! ### The sessions that are meant -/

def whenOk {α : Type} (result : Result Unit) (x y : α) : α :=
  match result with
  | .ok _ => x
  | _ => y

/-- What a slot is meant to be connected to, after a command: to what the `open` says, with the
database that the `use` says, if they came back without an error. -/
def meantAfter (w : World) (s : Input × Answers) (m : Slot → Option ServerSession) :
    Slot → Option ServerSession :=
  let result := (mexFunction w s.1 s.2).2
  match parse w s.1 with
  | .ok (.OPEN, i) => whenOk result (Function.update m i (some ⟨connectArgs s.1, none⟩)) m
  | .ok (.USE, i) =>
    whenOk result (Function.update m i ((m i).map fun x => { x with db := selectedDb s.1 })) m
  | _ => m

theorem whenOk_cases {α : Type} (result : Result Unit) (x y : α) :
    whenOk result x y = x ∨ whenOk result x y = y := by
  cases result with
  | ok u => exact Or.inl rfl
  | _ => exact Or.inr rfl

theorem meantAfter_cases (w : World) (s : Input × Answers) (m : Slot → Option ServerSession) :
    meantAfter w s m = m ∨
    (∃ i, parse w s.1 = .ok (.OPEN, i) ∧
      meantAfter w s m = Function.update m i (some ⟨connectArgs s.1, none⟩)) ∨
    ∃ i, meantAfter w s m
      = Function.update m i ((m i).map fun x => { x with db := selectedDb s.1 }) := by
  unfold meantAfter
  dsimp only
  split
  · next i hp =>
    rcases whenOk_cases (mexFunction w s.1 s.2).2
      (Function.update m i (some ⟨connectArgs s.1, none⟩)) m with h | h
    · exact Or.inr (Or.inl ⟨i, hp, h⟩)
    · exact Or.inl h
  · next i hp =>
    rcases whenOk_cases (mexFunction w s.1 s.2).2
      (Function.update m i ((m i).map fun x => { x with db := selectedDb s.1 })) m with h | h
    · exact Or.inr (Or.inr ⟨i, h⟩)
    · exact Or.inl h
  · exact Or.inl rfl

def meant : List (Input × Answers) → Slot → Option ServerSession
  | [] => fun _ => none
  | s :: older => meantAfter (run older) s (meant older)

/-! ### One command -/

/-- The handle of each open slot has the session that is meant for the slot. -/
def Meets (w : World) (t : Sessions) (m : Slot → Option ServerSession) : Prop :=
  ∀ i, (w.c i).isopen = true → ∃ h x, (w.c i).conn = some h ∧ t h = some x ∧ m i = some x

/-- A statement that is sent after these calls finds the session that was meant before them. -/
def Told (inp : Input) (t : Sessions) (m : Slot → Option ServerSession) (before : List Entry) :
    Entry → Prop
  | .call i conn (.query _ _) =>
    ∃ h x, conn = some h ∧ replay inp t before h = some x ∧ m i = some x
  | _ => True

/-- Calls that change no session, and send no statement. -/
def ClientFn.isSilent : ClientFn → Bool
  | .init _ | .realConnect true | .selectDb true | .query _ _ | .close => false
  | _ => true

theorem afterCall_silent {fn : ClientFn} (h : fn.isSilent = true) (inp : Input) (t : Sessions)
    (i : Slot) (conn : Option Handle) : afterCall inp t (.call i conn fn) = t := by
  cases fn with
  | init res => cases h
  | realConnect ok =>
    cases ok with
    | false => cases conn <;> rfl
    | true => cases h
  | selectDb ok =>
    cases ok with
    | false => cases conn <;> rfl
    | true => cases h
  | close => cases h
  | query stmt results => cases h
  | _ => cases conn <;> rfl

theorem ClientFn.quiet_of_isSilent {fn : ClientFn} (h : fn.isSilent = true) : fn.Quiet := by
  apply ClientFn.quiet
  · rintro res rfl
    cases h
  · rintro rfl
    cases h
  · rintro rfl
    cases h

theorem told_silent {fn : ClientFn} (h : fn.isSilent = true) (inp : Input) (t : Sessions)
    (m : Slot → Option ServerSession) (before : List Entry) (i : Slot) (conn : Option Handle) :
    Told inp t m before (.call i conn fn) := by
  cases fn with
  | query stmt results => cases h
  | _ => trivial

/-- What has happened since the command began in `w₀`, with the sessions `t₀` and `m₀` meant. -/
structure Serves (inp : Input) (w₀ : World) (t₀ : Sessions) (m₀ : Slot → Option ServerSession)
    (w : World) (m : Slot → Option ServerSession) : Prop where
  inv : TableInv w
  served : ∃ new, w.log = new ++ w₀.log ∧ Throughout (Told inp t₀ m₀) new ∧
    Meets w (replay inp t₀ new) m

namespace Serves

variable {inp : Input} {w₀ w w' : World} {t₀ : Sessions}
variable {m₀ m : Slot → Option ServerSession} {i : Slot}

theorem start (hw : TableInv w₀) (hm : Meets w₀ t₀ m₀) : Serves inp w₀ t₀ m₀ w₀ m₀ :=
  ⟨hw, [], rfl, trivial, hm⟩

/-- One more entry in the log. -/
theorem entry (h : Serves inp w₀ t₀ m₀ w m) {e : Entry} (hinv : TableInv w')
    (hlog : w'.log = e :: w.log) (htold : ∀ before, Told inp t₀ m₀ before e)
    {m' : Slot → Option ServerSession}
    (hmeets : ∀ t, Meets w t m → Meets w' (afterCall inp t e) m') : Serves inp w₀ t₀ m₀ w' m' := by
  obtain ⟨new, hnew, hthrough, hm⟩ := h.served
  exact ⟨hinv, e :: new, by rw [hlog, hnew]; rfl, ⟨htold new, hthrough⟩, hmeets _ hm⟩

/-- A change of the table that needs no call. -/
theorem table (h : Serves inp w₀ t₀ m₀ w m) (hinv : TableInv w') (hlog : w'.log = w.log)
    {m' : Slot → Option ServerSession} (hmeets : ∀ t, Meets w t m → Meets w' t m') :
    Serves inp w₀ t₀ m₀ w' m' := by
  obtain ⟨new, hnew, hthrough, hm⟩ := h.served
  exact ⟨hinv, new, hlog.trans hnew, hthrough, hmeets _ hm⟩

theorem silent (h : Serves inp w₀ t₀ m₀ w m) (fn : ClientFn) (hfn : fn.isSilent = true)
    (hc : (w.c i).conn ≠ none) : Serves inp w₀ t₀ m₀ (w.call i fn) m := by
  refine h.entry (h.inv.call_quiet (ClientFn.quiet_of_isSilent hfn) hc) rfl
    (fun before => told_silent hfn inp t₀ m₀ before i _) fun t hm => ?_
  rw [afterCall_silent hfn]
  exact hm

theorem note (h : Serves inp w₀ t₀ m₀ w m) {e : Entry} (he : ∀ j conn fn, e ≠ .call j conn fn) :
    Serves inp w₀ t₀ m₀ (w.note e) m := by
  cases e with
  | call j conn fn => exact absurd rfl (he j conn fn)
  | _ => exact h.entry (h.inv.note he) rfl (fun _ => trivial) fun t hm => hm

theorem drop (h : Serves inp w₀ t₀ m₀ w m) : Serves inp w₀ t₀ m₀ (w.drop i) m := by
  refine h.table h.inv.drop rfl fun t hm j hj => ?_
  by_cases hji : j = i
  · rw [hji, World.drop_c_self] at hj
    cases hj
  · rw [World.drop_c_of_ne _ _ hji] at hj ⊢
    exact hm j hj

/-- A slot that is not open may be meant for anything. -/
theorem closed (h : Serves inp w₀ t₀ m₀ w m) (ho : (w.c i).isopen = false)
    (x : Option ServerSession) : Serves inp w₀ t₀ m₀ w (Function.update m i x) := by
  refine h.table h.inv rfl fun t hm j hj => ?_
  have hji : j ≠ i := by
    rintro rfl
    rw [ho] at hj
    cases hj
  rw [Function.update_of_ne hji]
  exact hm j hj

/-- Only the handle of slot `i` changes its session, and slot `i` is not open afterwards. -/
theorem ended (h : Serves inp w₀ t₀ m₀ w m) {e : Entry} (hinv : TableInv w')
    (hlog : w'.log = e :: w.log) (htold : ∀ before, Told inp t₀ m₀ before e)
    (ho : (w'.c i).isopen = false) (hother : ∀ j, j ≠ i → w'.c j = w.c j)
    (hkept : ∀ t j h, j ≠ i → (w.c j).conn = some h → afterCall inp t e h = t h) :
    Serves inp w₀ t₀ m₀ w' m := by
  refine h.entry hinv hlog htold fun t hm j hj => ?_
  have hji : j ≠ i := by
    rintro rfl
    rw [ho] at hj
    cases hj
  rw [hother j hji] at hj ⊢
  obtain ⟨h', x, hh, hx, hmj⟩ := hm j hj
  exact ⟨h', x, hh, by rw [hkept t j h' hji hh, hx], hmj⟩

theorem closeIfOpen (h : Serves inp w₀ t₀ m₀ w m) : Serves inp w₀ t₀ m₀ (w.closeIfOpen i) m := by
  cases ho : (w.c i).isopen with
  | false =>
    rw [World.closeIfOpen_of_not ho]
    exact h
  | true =>
    obtain ⟨hi, hh, -⟩ := h.inv.opened i ho
    have hinv : TableInv (w.closeIfOpen i) := h.inv.closeIfOpen
    have hclosed := w.closeIfOpen_isopen i
    rw [World.closeIfOpen_of_open ho] at hinv hclosed ⊢
    refine h.ended (i := i) (e := .call i (w.c i).conn .close) hinv rfl (fun _ => trivial) hclosed
      (fun j hj => World.set_c_of_ne _ _ _ hj) fun t j h' hj hj' => ?_
    rw [hh]
    refine Function.update_of_ne ?_ _ _
    rintro rfl
    exact hj (h.inv.distinct j i _ hj' hh)

theorem init (h : Serves inp w₀ t₀ m₀ w m) (ok : Bool) (ho : (w.c i).isopen = false) :
    Serves inp w₀ t₀ m₀ (w.init i ok) m := by
  have hclosed : ((w.init i ok).c i).isopen = false := by
    rw [World.init_c_self]
    exact ho
  refine h.ended (h.inv.init ok ho) (World.init_log_conn w i ok) (fun _ => trivial) hclosed
    (fun j hj => World.init_c_of_ne w i ok hj) fun t j h' hj hj' => ?_
  have hapart := h.inv.init_apart ok hj hj'
  cases hres : ((w.init i ok).c i).conn with
  | none => cases (w.c i).conn <;> rfl
  | some h'' =>
    rw [hres] at hapart
    have hne : h' ≠ h'' := fun he => hapart (congrArg some he.symm)
    cases (w.c i).conn with
    | none => exact Function.update_of_ne hne _ _
    | some _ => exact Function.update_of_ne hne _ _

theorem selectDb (h : Serves inp w₀ t₀ m₀ w m) (ho : (w.c i).isopen = true) :
    Serves inp w₀ t₀ m₀ (w.call i (.selectDb true))
      (Function.update m i ((m i).map fun x => { x with db := selectedDb inp })) := by
  have hquiet : ClientFn.Quiet (.selectDb true) := ClientFn.quiet (by simp) (by simp) (by simp)
  obtain ⟨hi, hh, -⟩ := h.inv.opened i ho
  refine h.entry (e := .call i (w.c i).conn (.selectDb true))
    (h.inv.call_quiet hquiet (h.inv.opened.ne_none ho)) rfl (fun _ => trivial) fun t hm j hj => ?_
  rw [hh]
  by_cases hji : j = i
  · subst hji
    obtain ⟨h', y, hh', hy, hmi⟩ := hm j ho
    obtain rfl : hi = h' := Option.some.inj (hh.symm.trans hh')
    refine ⟨hi, { y with db := selectedDb inp }, hh, ?_, ?_⟩
    · refine (Function.update_self _ _ _).trans ?_
      rw [hy]
      rfl
    · rw [Function.update_self, hmi]
      rfl
  · obtain ⟨h', y, hh', hy, hmj⟩ := hm j hj
    have hne : h' ≠ hi := by
      rintro rfl
      exact hji (h.inv.distinct j i _ hh' hh)
    exact ⟨h', y, hh', (Function.update_of_ne hne _ _).trans hy,
      (Function.update_of_ne hji _ _).trans hmj⟩

/-- A connection that is made is the one that is asked for. -/
theorem connected (h : Serves inp w₀ t₀ m₀ w m) (hc : (w.c i).conn ≠ none)
    (ho : (w.c i).isopen = false) (ok : Bool) :
    Serves inp w₀ t₀ m₀ (w.connected i ok)
      (if ok then Function.update m i (some ⟨connectArgs inp, none⟩) else m) := by
  obtain ⟨hi, hh⟩ := Option.ne_none_iff_exists'.mp hc
  have hapart : ∀ j h', j ≠ i → (w.c j).conn = some h' → h' ≠ hi := by
    rintro j h' hj hj' rfl
    exact hj (h.inv.distinct j i _ hj' hh)
  cases ok with
  | false =>
    have hconnect : Serves inp w₀ t₀ m₀ (w.call i (.realConnect true)) m := by
      refine h.ended (i := i) (h.inv.connect hc) rfl (fun _ => trivial) ho (fun _ _ => rfl)
        fun t j h' hj hj' => ?_
      rw [hh]
      exact Function.update_of_ne (hapart j h' hj hj') _ _
    exact hconnect.silent _ rfl hc
  | true =>
    obtain ⟨new, hnew, hthrough, hm⟩ := h.served
    have hinv : TableInv (w.connected i true) := h.inv.connected hc true
    refine ⟨hinv, .success i :: .call i (w.c i).conn (.stat true)
      :: .call i (w.c i).conn (.realConnect true) :: new, ?_,
      ⟨trivial, trivial, trivial, hthrough⟩, ?_⟩
    · rw [List.cons_append, List.cons_append, List.cons_append, ← hnew]
      rfl
    intro j hj
    have hreplay : replay inp t₀ (.success i :: .call i (w.c i).conn (.stat true)
        :: .call i (w.c i).conn (.realConnect true) :: new)
        = Function.update (replay inp t₀ new) hi (some ⟨connectArgs inp, none⟩) := by
      rw [hh]
      rfl
    rw [hreplay]
    by_cases hji : j = i
    · subst hji
      refine ⟨hi, ⟨connectArgs inp, none⟩, ?_, Function.update_self _ _ _,
        Function.update_self _ _ _⟩
      exact (congrArg ConnInfo.conn (World.set_c_self _ _ _)).trans hh
    · have hsame : (w.connected i true).c j = w.c j := World.set_c_of_ne _ _ _ hji
      rw [hsame] at hj ⊢
      obtain ⟨h', y, hh', hy, hmj⟩ := hm j hj
      refine ⟨h', y, hh', ?_, (Function.update_of_ne hji _ _).trans hmj⟩
      rw [Function.update_of_ne (hapart j h' hji hh'), hy]

/-- A statement over an open slot finds the session that is meant. -/
theorem query (h : Serves inp w₀ t₀ m₀ w m₀) (ho : (w.c i).isopen = true) (stmt : Bytes)
    (results : Nat) : Serves inp w₀ t₀ m₀ (w.call i (.query stmt results)) m₀ := by
  obtain ⟨new, hnew, hthrough, hm⟩ := h.served
  have hquiet : ClientFn.Quiet (.query stmt results) := ClientFn.quiet (by simp) (by simp) (by simp)
  refine ⟨h.inv.call_quiet hquiet (h.inv.opened.ne_none ho),
    .call i (w.c i).conn (.query stmt results) :: new, by rw [World.call_log, hnew]; rfl,
    ⟨hm i ho, hthrough⟩, ?_⟩
  have hreplay : replay inp t₀ (.call i (w.c i).conn (.query stmt results) :: new)
      = replay inp t₀ new := by
    cases hc : (w.c i).conn <;> rfl
  rw [hreplay]
  exact hm

end Serves

/-! ### The branches -/

section Branches

variable {inp : Input} {w : World} {t : Sessions} {m : Slot → Option ServerSession} {i : Slot}

theorem openBranch_serves (h : Serves inp w t m w m) (a : Answers) :
    Serves inp w t m (openBranch w i inp a).1
      (whenOk (openBranch w i inp a).2
        (Function.update m i (some ⟨connectArgs inp, none⟩)) m) := by
  have hattempt : Serves inp w t m ((w.note (.attempt i)).closeIfOpen i) m :=
    (h.note fun _ _ _ he => by cases he).closeIfOpen
  have hinit := hattempt.init a.init ((w.note (.attempt i)).closeIfOpen_isopen i)
  have hfree : ((((w.note (.attempt i)).closeIfOpen i).init i a.init).c i).isopen = false := by
    rw [World.init_c_self]
    exact (w.note (.attempt i)).closeIfOpen_isopen i
  unfold openBranch
  dsimp only
  generalize ((w.note (.attempt i)).closeIfOpen i).init i a.init = w' at hinit hfree ⊢
  by_cases hc : (w'.c i).conn = none
  · rw [if_pos hc]
    exact hinit
  rw [if_neg hc]
  cases isTlsStruct (inp.args[3]?.getD none) with
  | true => exact hinit
  | false =>
    rw [if_neg Bool.false_ne_true]
    have hoptions : Serves inp w t m (w'.call i .options) m := hinit.silent _ rfl hc
    cases a.connect with
    | false => exact (hoptions.silent _ rfl hc).silent _ rfl hc
    | true =>
      rw [if_pos rfl]
      have hconnect := hoptions.connected hc hfree a.stat
      cases hstat : a.stat with
      | false =>
        rw [hstat] at hconnect
        exact hconnect.silent _ rfl hc
      | true =>
        rw [hstat] at hconnect
        exact hconnect

theorem closeBranch_serves {w₀ : World} (h : Serves inp w₀ t m w m) :
    Serves inp w₀ t m (closeBranch w i) m :=
  (h.note fun _ _ _ he => by cases he).closeIfOpen

theorem pinged_serves (h : Serves inp w t m w m) (ho : (w.c i).isopen = true) (ok : Bool)
    {continue_ : World → World × Result Unit} {f : Result Unit → Slot → Option ServerSession}
    (hfail : f (.raised .client) = m)
    (hk : Serves inp w t m (w.call i (.ping true)) m →
      Serves inp w t m (continue_ (w.call i (.ping true))).1
        (f (continue_ (w.call i (.ping true))).2)) :
    Serves inp w t m (w.pinged i ok continue_).1 (f (w.pinged i ok continue_).2) := by
  have hc := h.inv.opened.ne_none ho
  cases ok with
  | true => exact hk (h.silent _ rfl hc)
  | false =>
    have hping : Serves inp w t m (w.call i (.ping false)) m := h.silent _ rfl hc
    have hdrop : Serves inp w t m ((w.call i (.ping false)).drop i) m := hping.drop
    have hconn : (((w.call i (.ping false)).drop i).c i).conn ≠ none := by
      rw [World.drop_c_self]
      exact hc
    show Serves inp w t m (((w.call i (.ping false)).drop i).call i .error) (f (.raised .client))
    rw [hfail]
    exact hdrop.silent _ rfl hconn

theorem useBranch_serves (h : Serves inp w t m w m) (query : CStr) (a : Answers) :
    Serves inp w t m (useBranch w i query inp a).1
      (whenOk (useBranch w i query inp a).2
        (Function.update m i ((m i).map fun x => { x with db := selectedDb inp })) m) := by
  unfold useBranch
  by_cases ho : (w.c i).isopen = true
  · rw [if_pos ho]
    have hc := h.inv.opened.ne_none ho
    refine pinged_serves (f := fun r =>
      whenOk r (Function.update m i ((m i).map fun x => { x with db := selectedDb inp })) m)
      h ho a.ping rfl fun hping => ?_
    cases database query inp with
    | ok db =>
      dsimp only
      cases a.selectDb with
      | true =>
        rw [if_pos rfl]
        exact hping.selectDb ho
      | false =>
        rw [if_neg Bool.false_ne_true]
        have hselect : Serves inp w t m ((w.call i (.ping true)).call i (.selectDb false)) m :=
          hping.silent _ rfl hc
        exact hselect.silent _ rfl hc
    | _ => exact hping
  · rw [if_neg ho]
    exact h

theorem reportSlot_serves {w₀ : World} (h : Serves inp w₀ t m w m) (a : Answers) :
    Serves inp w₀ t m (reportSlot a w i) m := by
  unfold reportSlot
  by_cases ho : (w.c i).isopen = true
  · rw [if_pos ho]
    have hc := h.inv.opened.ne_none ho
    cases a.pings i with
    | true => exact (h.silent (.ping true) rfl hc).silent _ rfl hc
    | false =>
      have hdrop : Serves inp w₀ t m ((w.call i (.ping false)).drop i) m :=
        (h.silent (.ping false) rfl hc).drop
      have hconn : (((w.call i (.ping false)).drop i).c i).conn ≠ none := by
        rw [World.drop_c_self]
        exact hc
      exact hdrop.silent _ rfl hconn
  · rw [if_neg ho]
    exact h

theorem foldl_serves {f : World → Slot → World} {w₀ : World}
    (hf : ∀ w i, Serves inp w₀ t m w m → Serves inp w₀ t m (f w i) m) (slots : List Slot)
    (h : Serves inp w₀ t m w m) : Serves inp w₀ t m (slots.foldl f w) m := by
  induction slots generalizing w with
  | nil => exact h
  | cons i slots ih => exact ih (hf w i h)

theorem statusBranch_serves (h : Serves inp w t m w m) (hi : inp.id.isAbsent = true → i = 0)
    (a : Answers) : Serves inp w t m (statusBranch w i inp a).1 m := by
  have hinfo : (w.c i).isopen = true →
      Serves inp w t m (w.pinged i a.ping fun w => (w.call i .info, .ok ())).1 m := fun ho =>
    pinged_serves (f := fun _ => m) h ho a.ping rfl fun hping =>
      hping.silent _ rfl (h.inv.opened.ne_none ho)
  unfold statusBranch
  dsimp only
  split
  · split
    · next hid =>
      split
      · exact h
      · split
        · next hone =>
          rw [hi hid] at hinfo ⊢
          exact hinfo hone.2
        · exact foldl_serves (fun w i h => reportSlot_serves h a) _ h
    · split
      · next ho => exact hinfo ho
      · exact h
  · split
    · next ho =>
      have hc := h.inv.opened.ne_none ho
      cases a.ping with
      | false => exact (h.silent (.ping false) rfl hc).drop
      | true =>
        have hping : Serves inp w t m (w.call i (.ping true)) m := h.silent _ rfl hc
        cases a.stat with
        | false => exact (hping.silent (.stat false) rfl hc).drop
        | true => exact hping.silent (.stat true) rfl hc
    · exact h

theorem cmdBranch_serves (h : Serves inp w t m w m) (a : Answers) :
    Serves inp w t m (cmdBranch w i a).1 m := by
  unfold cmdBranch
  by_cases ho : (w.c i).isopen = true
  · rw [if_pos ho]
    have hc := h.inv.opened.ne_none ho
    refine pinged_serves (f := fun _ => m) h ho a.ping rfl fun hping => ?_
    have hescapes : ∀ n, Serves inp w t m
        (Nat.repeat (fun w => w.call i .escape) n (w.call i (.ping true))) m ∧
        (Nat.repeat (fun w => w.call i .escape) n (w.call i (.ping true))).c = w.c := by
      intro n
      induction n with
      | zero => exact ⟨hping, rfl⟩
      | succ n ih => exact ⟨ih.1.silent _ rfl (by rw [ih.2]; exact hc), ih.2⟩
    obtain ⟨hserves, hsame⟩ := hescapes a.escapes
    generalize Nat.repeat (fun w => w.call i .escape) a.escapes (w.call i (.ping true)) = w'
      at hserves hsame ⊢
    rw [← hsame] at ho hc
    dsimp only
    cases a.prepared with
    | ok stmt =>
      dsimp only
      have hquery := hserves.query ho stmt a.results
      by_cases hr : a.results = 0
      · rw [if_pos hr]
        exact hquery.silent _ rfl hc
      · rw [if_neg hr]
        have hstore : Serves inp w t m
            ((w'.call i (.query stmt a.results)).call i .storeResult) m := hquery.silent _ rfl hc
        unfold fetch
        dsimp only
        cases a.stored with
        | noRows => exact (hstore.silent .fieldCount rfl hc).silent _ rfl hc
        | failed => exact (hstore.silent .fieldCount rfl hc).silent _ rfl hc
        | rows output => exact hstore
    | _ => exact hserves
  · rw [if_neg ho]
    exact h

/-- **One command.** -/
theorem mexFunction_serves (h : Serves inp w t m w m) (a : Answers) :
    Serves inp w t m (mexFunction w inp a).1 (meantAfter w (inp, a) m) := by
  by_cases hp : ∃ r, parse w inp = .ok r
  · obtain ⟨⟨q, i⟩, hp⟩ := hp
    unfold meantAfter
    rw [mexFunction_of_parse hp, hp]
    cases q with
    | OPEN => exact openBranch_serves h a
    | USE =>
      unfold branch
      dsimp only
      split
      · exact useBranch_serves h _ a
      · exact h
    | CLOSE => exact closeBranch_serves h
    | CLOSE_ALL => exact foldl_serves (fun w i h => closeBranch_serves h) _ h
    | STATUS => exact statusBranch_serves h (parse_absent hp) a
    | CMD => exact cmdBranch_serves h a
    | _ => exact h
  · have hsame : meantAfter w (inp, a) m = m := by
      unfold meantAfter
      cases hr : parse w inp with
      | ok r => exact absurd ⟨r, hr⟩ hp
      | _ => rfl
    rw [mexFunction_of_not_parse fun r hr => hp ⟨r, hr⟩, hsame]
    exact h

end Branches

/-! ### Runs -/

theorem serves_run {older : List (Input × Answers)}
    (h : Meets (run older) (sessions older) (meant older)) (s : Input × Answers) :
    Serves s.1 (run older) (sessions older) (meant older) (run (s :: older)) (meant (s :: older)) :=
  mexFunction_serves (.start (tableInv_run older) h) s.2

/-- After any run an open slot is connected to what it is meant to be. -/
theorem meets_run (steps : List (Input × Answers)) :
    Meets (run steps) (sessions steps) (meant steps) := by
  induction steps with
  | nil => exact fun i hi => by cases hi
  | cons s older ih =>
    obtain ⟨new, hnew, -, hm⟩ := (serves_run ih s).served
    rw [sessions, callsSince_eq hnew]
    exact hm

/-- The command is one of the run, and opened slot `i`. -/
def OpenedBy (steps : List (Input × Answers)) (i : Slot) (o : Input × Answers) : Prop :=
  ∃ after before, steps = after ++ o :: before ∧ parse (run before) o.1 = .ok (.OPEN, i)

theorem OpenedBy.cons {steps : List (Input × Answers)} {i : Slot} {o : Input × Answers}
    (h : OpenedBy steps i o) (s : Input × Answers) : OpenedBy (s :: steps) i o := by
  obtain ⟨after, before, rfl, hp⟩ := h
  exact ⟨s :: after, before, rfl, hp⟩

/-- A session is meant for a slot only if a command has opened the slot with its arguments. -/
theorem meant_args {steps : List (Input × Answers)} {i : Slot} {x : ServerSession}
    (h : meant steps i = some x) : ∃ o, OpenedBy steps i o ∧ x.args = connectArgs o.1 := by
  induction steps generalizing x with
  | nil => cases h
  | cons s older ih =>
    have hkept : ∀ {y : ServerSession}, meant older i = some y → y.args = x.args →
        ∃ o, OpenedBy (s :: older) i o ∧ x.args = connectArgs o.1 := by
      intro y hy hargs
      obtain ⟨o, ho, heq⟩ := ih hy
      exact ⟨o, ho.cons s, hargs.symm.trans heq⟩
    rw [meant] at h
    rcases meantAfter_cases (run older) s (meant older) with heq | ⟨k, hp, heq⟩ | ⟨k, heq⟩
    · rw [heq] at h
      exact hkept h rfl
    · rw [heq] at h
      by_cases hk : i = k
      · subst hk
        rw [Function.update_self] at h
        obtain rfl := Option.some.inj h
        exact ⟨s, ⟨[], older, rfl, hp⟩, rfl⟩
      · rw [Function.update_of_ne hk] at h
        exact hkept h rfl
    · rw [heq] at h
      by_cases hk : i = k
      · subst hk
        rw [Function.update_self] at h
        obtain ⟨y, hy, rfl⟩ := Option.map_eq_some_iff.mp h
        exact hkept hy rfl
      · rw [Function.update_of_ne hk] at h
        exact hkept h rfl

/-- **A statement is sent into the session that is meant.**  In every run, where a command sends a
statement over slot `i`, the server has for the handle the session with the arguments of the last
`open` of the slot and the database of the last `use` since then.  That session is without TLS
only if the `open` said so. -/
theorem statement_session (older : List (Input × Answers)) (s : Input × Answers) {i : Slot}
    {conn : Option Handle} {stmt : Bytes} {results : Nat} {after before : List Entry}
    (h : callsSince (run older) (run (s :: older))
      = after ++ .call i conn (.query stmt results) :: before) :
    ∃ handle session, conn = some handle ∧
      replay s.1 (sessions older) before handle = some session ∧ meant older i = some session ∧
      ∃ o, OpenedBy older i o ∧ session.args = connectArgs o.1 ∧
        (session.args.mode = .disabled →
          ∃ ssl, o.1.args[3]? = some (some ssl) ∧ strcaseEq ssl.1 falseWord = true) := by
  obtain ⟨new, hnew, hthrough, -⟩ := (serves_run (meets_run older) s).served
  rw [callsSince_eq hnew] at h
  rw [h] at hthrough
  have htold := (hthrough.of_suffix (List.suffix_append after _)).1
  obtain ⟨handle, session, hconn, hsession, hmeant⟩ := htold
  obtain ⟨o, ho, hargs⟩ := meant_args hmeant
  refine ⟨handle, session, hconn, hsession, hmeant, o, ho, hargs, fun hmode => ?_⟩
  rw [hargs] at hmode
  obtain ⟨ssl, hssl, hfalse⟩ := sslMode_disabled_iff.mp hmode
  refine ⟨ssl, ?_, hfalse⟩
  cases harg : o.1.args[3]? with
  | none =>
    rw [harg] at hssl
    cases hssl
  | some arg =>
    rw [harg] at hssl
    exact congrArg some hssl

/-- `localhost:3307`, without TLS -/
def openLocal : Input :=
  ⟨.number 2, some (some openCommand),
    [some (textOf [108, 111, 99, 97, 108, 104, 111, 115, 116, 58, 51, 51, 48, 55]),
      some (textOf [109, 101]), some (textOf []), some (textOf [70, 65, 76, 83, 69])], 1⟩

/-- `use lab` -/
def useLab : Input := ⟨.number 2, some (some (textOf [117, 115, 101, 32, 108, 97, 98])), [], 1⟩

/-- Slot 2 is opened, and told which database to use. -/
def localRun : List (Input × Answers) := [(useLab, allWell [] 1), (openLocal, allWell [] 1)]

theorem statement_session_local :
    (∃ handle session, some 0 = some handle ∧
      replay (commandAt 2 select) (sessions localRun) [.call 2 (some 0) (.ping true)] handle
        = some session ∧ meant localRun 2 = some session ∧
      ∃ o, OpenedBy localRun 2 o ∧ session.args = connectArgs o.1 ∧
        (session.args.mode = .disabled →
          ∃ ssl, o.1.args[3]? = some (some ssl) ∧ strcaseEq ssl.1 falseWord = true)) ∧
    sessions localRun 0
      = some ⟨⟨some (textOf [108, 111, 99, 97, 108, 104, 111, 115, 116]), some (textOf [109, 101]),
        some (textOf []), .ok 3307, .disabled⟩, some [108, 97, 98]⟩ :=
  ⟨@statement_session localRun (commandAt 2 select, allWell select.1 1) 2 (some 0) select.1 1
    [.call 2 (some 0) .storeResult] [.call 2 (some 0) (.ping true)] rfl, rfl⟩

end Mym
