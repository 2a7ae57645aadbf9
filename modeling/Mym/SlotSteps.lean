import Mathlib.Logic.Relation
import Mym.Connection
import Mym.Lib.Trace

/-!
# What a command does to a slot

Whatever the input and whatever the client answers, a command is a sequence of a few kinds
of step on a slot, `SlotStep`, each taken in a state in which the code takes it: a query is
followed by the one `mysql_store_result`, a failed ping or stat by the clearing of `isopen`,
and a client call other than `mysql_init` is made on a slot that holds a handle.

`branch_all_steps` decomposes the branches once and for all.  A command that is addressed
to one slot takes its steps on that slot (`branch_steps`); the exceptions, `AllSlots`, are
`closeall` and the report about all connections.  Invariants of the connection table are
proved for `SlotStep` and carried along a run with `run_induction`.
-/

namespace Mym

/-! ### Handles in the log -/

inductive HandleState where
  | unused | inited | connected | closed
  deriving DecidableEq, Repr

/-- What has become of the handle `h`. -/
def handleState (h : Handle) : List Entry → HandleState
  | [] => .unused
  | .call _ _ (.init (some h')) :: older => if h' = h then .inited else handleState h older
  | .call _ conn (.realConnect true) :: older =>
    if conn = some h then .connected else handleState h older
  | .call _ conn .close :: older => if conn = some h then .closed else handleState h older
  | _ :: older => handleState h older

section Calls

variable (h : Handle) (log : List Entry) (i : Slot) (conn : Option Handle)

theorem handleState_initCall (h' : Handle) : handleState h (.call i conn (.init (some h')) :: log)
    = if h' = h then .inited else handleState h log := rfl

theorem handleState_connectCall : handleState h (.call i conn (.realConnect true) :: log)
    = if conn = some h then .connected else handleState h log := rfl

theorem handleState_closeCall : handleState h (.call i conn .close :: log)
    = if conn = some h then .closed else handleState h log := rfl

end Calls

/-! ### Steps -/

/-- Calls that change neither what a handle is nor whether results are left. -/
def ClientFn.isPlain : ClientFn → Bool
  | .options | .realConnect false | .stat true | .ping true | .selectDb _ | .escape
  | .query _ 0 | .fieldCount | .affectedRows | .info | .error => true
  | _ => false

/-- A connection that has been made is asked for its state. -/
def World.connected (w : World) (i : Slot) (ok : Bool) : World :=
  let w := (w.call i (.realConnect true)).call i (.stat ok)
  if ok then (w.set i { w.c i with isopen := true }).note (.success i) else w

inductive SlotStep (q : QueryType) (i : Slot) (w : World) : World → Prop
  | plain {fn : ClientFn} (hfn : fn.isPlain = true) (hc : (w.c i).conn ≠ none) :
      SlotStep q i w (w.call i fn)
  | failed {fn : ClientFn} (hfn : fn = .ping false ∨ fn = .stat false)
      (hc : ∃ h, (w.c i).conn = some h ∧ handleState h w.log = .connected) :
      SlotStep q i w ((w.call i fn).drop i)
  | fetched (hq : q = .CMD) (stmt : Bytes) {results : Nat} (hr : results ≠ 0)
      (hc : (w.c i).conn ≠ none) :
      SlotStep q i w ((w.call i (.query stmt results)).call i .storeResult)
  | release (hq : q = .CLOSE ∨ q = .CLOSE_ALL) :
      SlotStep q i w ((w.note (.release i)).closeIfOpen i)
  | attempt (hq : q = .OPEN) (ok : Bool) :
      SlotStep q i w (((w.note (.attempt i)).closeIfOpen i).init i ok)
  | connect (hq : q = .OPEN) (hc : (w.c i).conn ≠ none) (ho : (w.c i).isopen = false) (ok : Bool) :
      SlotStep q i w (w.connected i ok)

abbrev SlotSteps (q : QueryType) (i : Slot) := Relation.ReflTransGen (SlotStep q i)

abbrev Steps (q : QueryType) := Relation.ReflTransGen fun w w' => ∃ i, SlotStep q i w w'

theorem SlotSteps.steps {q : QueryType} {i : Slot} {w w' : World} (h : SlotSteps q i w w') :
    Steps q w w' := by
  induction h with
  | refl => exact .refl
  | tail _ hs ih => exact ih.tail ⟨i, hs⟩

/-! ### The slot after a step -/

namespace World

variable (w : World) (i : Slot) (fn : ClientFn) (e : Entry) (s : ConnInfo)

@[simp] theorem note_c : (w.note e).c = w.c := rfl

@[simp] theorem note_log : (w.note e).log = e :: w.log := rfl

@[simp] theorem note_next : (w.note e).next = w.next := rfl

@[simp] theorem call_c : (w.call i fn).c = w.c := rfl

@[simp] theorem call_log : (w.call i fn).log = .call i (w.c i).conn fn :: w.log := rfl

@[simp] theorem call_next : (w.call i fn).next = w.next := rfl

@[simp] theorem set_c_self : (w.set i s).c i = s := by
  unfold set
  exact Function.update_self i s w.c

theorem set_c_of_ne {j : Slot} (h : j ≠ i) : (w.set i s).c j = w.c j := by
  unfold set
  exact Function.update_of_ne h s w.c

@[simp] theorem set_log : (w.set i s).log = w.log := rfl

@[simp] theorem set_next : (w.set i s).next = w.next := rfl

@[simp] theorem drop_c_self : (w.drop i).c i = { w.c i with isopen := false } := set_c_self _ _ _

theorem drop_c_of_ne {j : Slot} (h : j ≠ i) : (w.drop i).c j = w.c j := set_c_of_ne _ _ _ h

@[simp] theorem drop_log : (w.drop i).log = w.log := rfl

@[simp] theorem drop_next : (w.drop i).next = w.next := rfl

@[simp] theorem init_log (ok : Bool) : (w.init i ok).log
    = .call i (w.c i).conn (.init (if ok then some ((w.c i).conn.getD w.next) else none))
      :: w.log := rfl

@[simp] theorem init_c_self (ok : Bool) : (w.init i ok).c i
    = ⟨if ok then some ((w.c i).conn.getD w.next) else none, (w.c i).isopen⟩ :=
  set_c_self _ _ _

theorem init_c_of_ne (ok : Bool) {j : Slot} (h : j ≠ i) : (w.init i ok).c j = w.c j :=
  set_c_of_ne _ _ _ h

theorem init_log_conn (ok : Bool) : (w.init i ok).log
    = .call i (w.c i).conn (.init ((w.init i ok).c i).conn) :: w.log := by
  rw [init_log, init_c_self]

/-- `mysql_init` returns the handle it is given, or a new one. -/
theorem init_conn (ok : Bool) {h : Handle} (hh : ((w.init i ok).c i).conn = some h) :
    ok = true ∧ ((w.c i).conn = some h ∨ (w.c i).conn = none ∧ h = w.next) := by
  rw [init_c_self] at hh
  cases ok with
  | false => cases hh
  | true =>
    refine ⟨rfl, ?_⟩
    cases hc : (w.c i).conn with
    | none =>
      rw [hc] at hh
      exact Or.inr ⟨rfl, (Option.some.inj hh).symm⟩
    | some h' =>
      rw [hc] at hh
      exact Or.inl hh

/-- Only a handle that is returned changes its state. -/
theorem init_state (ok : Bool) (h : Handle) : handleState h (w.init i ok).log
    = if ((w.init i ok).c i).conn = some h then .inited else handleState h w.log := by
  rw [init_log_conn]
  cases hc : ((w.init i ok).c i).conn with
  | none => rfl
  | some h' =>
    simp only [handleState_initCall, Option.some_inj]

/-- A handle that is still unused after `mysql_init` was so before, and is not the one returned. -/
theorem init_next (ok : Bool) {h : Handle} (hle : (w.init i ok).next ≤ h) :
    w.next ≤ h ∧ ((w.c i).conn = none → ((w.init i ok).c i).conn ≠ some h) := by
  unfold init at hle
  dsimp only at hle
  split at hle
  · refine ⟨Nat.le_of_succ_le hle, fun hnone hh => ?_⟩
    obtain ⟨-, hown | ⟨-, rfl⟩⟩ := init_conn w i ok hh
    · rw [hnone] at hown
      cases hown
    · exact Nat.not_succ_le_self _ hle
  · next hnew =>
    refine ⟨hle, fun hnone hh => ?_⟩
    exact hnew ⟨(init_conn w i ok hh).1, hnone⟩

theorem closeIfOpen_of_not {w : World} {i : Slot} (h : (w.c i).isopen = false) :
    w.closeIfOpen i = w := by
  unfold closeIfOpen
  rw [h]
  rfl

theorem closeIfOpen_of_open {w : World} {i : Slot} (h : (w.c i).isopen = true) :
    w.closeIfOpen i = (w.call i .close).set i ⟨none, false⟩ := if_pos h

theorem closeIfOpen_isopen (w : World) (i : Slot) : ((w.closeIfOpen i).c i).isopen = false := by
  cases h : (w.c i).isopen with
  | false => rw [closeIfOpen_of_not h, h]
  | true => rw [closeIfOpen_of_open h, set_c_self]

theorem closeIfOpen_conn (w : World) (i : Slot) :
    ((w.closeIfOpen i).c i).conn = none ∨ ((w.closeIfOpen i).c i).conn = (w.c i).conn := by
  unfold closeIfOpen
  split
  · rw [set_c_self]
    exact Or.inl rfl
  · exact Or.inr rfl

theorem closeIfOpen_next (w : World) (i : Slot) : (w.closeIfOpen i).next = w.next := by
  unfold closeIfOpen
  split
  · rfl
  · rfl

end World

/-! ### The invariant -/

/-- An open slot holds a connected handle. -/
def OpenHeld (w : World) : Prop :=
  ∀ i, (w.c i).isopen = true → ∃ h, (w.c i).conn = some h ∧ handleState h w.log = .connected

theorem OpenHeld.ne_none {w : World} (hw : OpenHeld w) {i : Slot} (h : (w.c i).isopen = true) :
    (w.c i).conn ≠ none := by
  obtain ⟨h', hc, -⟩ := hw i h
  rw [hc]
  exact Option.some_ne_none h'

/-- The handle can be passed to the client. -/
def Live (h : Handle) (log : List Entry) : Prop :=
  handleState h log = .inited ∨ handleState h log = .connected

/-- What the code owes the client: a handle that lives, or NULL for `mysql_init` alone; and what
the client promises: `mysql_init` returns its argument, or a handle never used before. -/
def Legal (log : List Entry) : Entry → Prop
  | .call _ conn (.init res) => (∀ h, conn = some h → Live h log) ∧
      ∀ h, res = some h → conn = some h ∨ (conn = none ∧ handleState h log = .unused)
  | .call _ conn _ => ∃ h, conn = some h ∧ Live h log
  | _ => True

/-- Every entry of the log is legal after the ones before it. -/
abbrev LogOk : List Entry → Prop := Throughout Legal

structure TableInv (w : World) : Prop where
  owned : ∀ i h, (w.c i).conn = some h → Live h w.log
  opened : OpenHeld w
  distinct : ∀ i j h, (w.c i).conn = some h → (w.c j).conn = some h → i = j
  fresh : ∀ h, w.next ≤ h → handleState h w.log = .unused
  legal : LogOk w.log

theorem tableInv_start : TableInv World.start where
  owned := fun _ _ h => by cases h
  opened := fun _ h => by cases h
  distinct := fun _ _ _ h => by cases h
  fresh := fun _ _ => rfl
  legal := trivial

/-- Calls that leave every handle as it is. -/
def ClientFn.Quiet (fn : ClientFn) : Prop :=
  (∀ res, fn ≠ .init res) ∧ ∀ i conn h log, handleState h (.call i conn fn :: log) = handleState h log

theorem ClientFn.quiet {fn : ClientFn} (h1 : ∀ res, fn ≠ .init res) (h2 : fn ≠ .realConnect true)
    (h3 : fn ≠ .close) : fn.Quiet := by
  refine ⟨h1, fun i conn h log => ?_⟩
  cases fn with
  | init res => exact absurd rfl (h1 res)
  | realConnect ok =>
    cases ok with
    | true => exact absurd rfl h2
    | false => rfl
  | close => exact absurd rfl h3
  | _ => rfl

theorem ClientFn.quiet_of_isPlain {fn : ClientFn} (h : fn.isPlain = true) : fn.Quiet := by
  apply ClientFn.quiet
  · rintro res rfl
    cases h
  · rintro rfl
    cases h
  · rintro rfl
    cases h

theorem legal_call {fn : ClientFn} (hfn : ∀ res, fn ≠ .init res) {log : List Entry} {i : Slot}
    {conn : Option Handle} {h : Handle} (hc : conn = some h) (hl : Live h log) :
    Legal log (.call i conn fn) := by
  cases fn with
  | init res => exact absurd rfl (hfn res)
  | _ => exact ⟨h, hc, hl⟩

namespace TableInv

variable {w : World} {i : Slot}

theorem call_quiet (hw : TableInv w) {fn : ClientFn} (hfn : fn.Quiet)
    (hc : (w.c i).conn ≠ none) : TableInv (w.call i fn) := by
  obtain ⟨h, hh⟩ := Option.ne_none_iff_exists'.mp hc
  have hstate : ∀ h', handleState h' (w.call i fn).log = handleState h' w.log :=
    fun h' => hfn.2 i (w.c i).conn h' w.log
  refine ⟨fun j h' hj => ?_, fun j hj => ?_, hw.distinct, fun h' hle => ?_, ?_, hw.legal⟩
  · rw [Live, hstate]
    exact hw.owned j h' hj
  · obtain ⟨h', hj', hs⟩ := hw.opened j hj
    exact ⟨h', hj', by rw [hstate, hs]⟩
  · rw [hstate]
    exact hw.fresh h' hle
  · exact legal_call hfn.1 hh (hw.owned i h hh)

theorem drop (hw : TableInv w) : TableInv (w.drop i) := by
  have hconn : ∀ j, ((w.drop i).c j).conn = (w.c j).conn := by
    intro j
    by_cases hj : j = i
    · rw [hj, World.drop_c_self]
    · rw [World.drop_c_of_ne _ _ hj]
  refine ⟨fun j h hj => hw.owned j h (by rw [← hconn]; exact hj), fun j hj => ?_,
    fun j k h hj hk => hw.distinct j k h (by rw [← hconn]; exact hj) (by rw [← hconn]; exact hk),
    hw.fresh, hw.legal⟩
  by_cases hji : j = i
  · rw [hji, World.drop_c_self] at hj
    cases hj
  · rw [World.drop_c_of_ne _ _ hji] at hj ⊢
    exact hw.opened j hj

theorem note (hw : TableInv w) {e : Entry} (he : ∀ j conn fn, e ≠ .call j conn fn) :
    TableInv (w.note e) := by
  cases e with
  | call j conn fn => exact absurd rfl (he j conn fn)
  | _ => exact ⟨hw.owned, hw.opened, hw.distinct, hw.fresh, trivial, hw.legal⟩

/-- Nobody holds a handle that is yet to come. -/
theorem unheld (hw : TableInv w) {h : Handle} (hle : w.next ≤ h) (j : Slot) :
    (w.c j).conn ≠ some h := by
  intro hj
  have hlive := hw.owned j h hj
  rw [Live, hw.fresh h hle] at hlive
  rcases hlive with hl | hl
  · cases hl
  · cases hl

/-- Closing a slot takes its handle out of use; no other slot has it. -/
theorem closeIfOpen (hw : TableInv w) : TableInv (w.closeIfOpen i) := by
  cases ho : (w.c i).isopen with
  | false =>
    rw [World.closeIfOpen_of_not ho]
    exact hw
  | true =>
    obtain ⟨h, hh, -⟩ := hw.opened i ho
    rw [World.closeIfOpen_of_open ho]
    have hne : ∀ j h', j ≠ i → (w.c j).conn = some h' → h ≠ h' := by
      rintro j h' hj hj' rfl
      exact hj (hw.distinct j i h hj' hh)
    have hstate : ∀ h', h ≠ h' → handleState h' (w.call i .close).log = handleState h' w.log := by
      intro h' hne
      rw [World.call_log, hh, handleState_closeCall, if_neg fun he => hne (Option.some.inj he)]
    have hold : ∀ j h', (((w.call i .close).set i ⟨none, false⟩).c j).conn = some h' →
        j ≠ i ∧ (w.c j).conn = some h' := by
      intro j h' hj
      by_cases hji : j = i
      · rw [hji, World.set_c_self] at hj
        cases hj
      · rw [World.set_c_of_ne _ _ _ hji] at hj
        exact ⟨hji, hj⟩
    refine ⟨fun j h' hj => ?_, fun j hj => ?_, fun j k h' hj hk => ?_, fun h' hle => ?_,
      ⟨h, hh, hw.owned i h hh⟩, hw.legal⟩
    · obtain ⟨hji, hj⟩ := hold j h' hj
      rw [Live, World.set_log, hstate h' (hne j h' hji hj)]
      exact hw.owned j h' hj
    · by_cases hji : j = i
      · rw [hji, World.set_c_self] at hj
        cases hj
      · rw [World.set_c_of_ne _ _ _ hji] at hj ⊢
        obtain ⟨h', hj', hs⟩ := hw.opened j hj
        exact ⟨h', hj', by rw [World.set_log, hstate h' (hne j h' hji hj'), hs]⟩
    · exact hw.distinct j k h' (hold j h' hj).2 (hold k h' hk).2
    · have hne' : h ≠ h' := fun he => hw.unheld hle i (he ▸ hh)
      rw [World.set_log, hstate h' hne']
      exact hw.fresh h' hle

/-- No other slot holds the handle that `mysql_init` returns. -/
theorem init_apart (hw : TableInv w) (ok : Bool) {j : Slot} (hj : j ≠ i) {h : Handle}
    (hjh : (w.c j).conn = some h) : ((w.init i ok).c i).conn ≠ some h := by
  intro hi
  obtain ⟨-, hown | ⟨-, rfl⟩⟩ := World.init_conn w i ok hi
  · exact hj (hw.distinct j i h hjh hown)
  · exact hw.unheld (Nat.le_refl _) j hjh

/-- `mysql_init` gives a slot that is not open its own handle again, or one that nobody has. -/
theorem init (hw : TableInv w) (ok : Bool) (ho : (w.c i).isopen = false) :
    TableInv (w.init i ok) := by
  have hother : ∀ j, j ≠ i → (w.init i ok).c j = w.c j := fun j hj =>
    World.init_c_of_ne w i ok hj
  have hclosed : ((w.init i ok).c i).isopen = false := by
    rw [World.init_c_self]
    exact ho
  have hkept : ∀ h, ((w.init i ok).c i).conn ≠ some h →
      handleState h (w.init i ok).log = handleState h w.log := by
    intro h hh
    rw [World.init_state, if_neg hh]
  refine ⟨fun j h hj => ?_, fun j hj => ?_, fun j k h hj hk => ?_, fun h hle => ?_, ?_⟩
  · by_cases hji : j = i
    · rw [hji] at hj
      rw [Live, World.init_state, if_pos hj]
      exact Or.inl rfl
    · rw [hother j hji] at hj
      rw [Live, hkept h (hw.init_apart ok hji hj)]
      exact hw.owned j h hj
  · by_cases hji : j = i
    · rw [hji, hclosed] at hj
      cases hj
    · rw [hother j hji] at hj ⊢
      obtain ⟨h, hj', hs⟩ := hw.opened j hj
      exact ⟨h, hj', by rw [hkept h (hw.init_apart ok hji hj'), hs]⟩
  · by_cases hji : j = i
    · by_cases hki : k = i
      · rw [hji, hki]
      · rw [hji] at hj
        rw [hother k hki] at hk
        exact absurd hj (hw.init_apart ok hki hk)
    · by_cases hki : k = i
      · rw [hki] at hk
        rw [hother j hji] at hj
        exact absurd hk (hw.init_apart ok hji hj)
      · rw [hother j hji] at hj
        rw [hother k hki] at hk
        exact hw.distinct j k h hj hk
  · obtain ⟨hle, hnew⟩ := World.init_next w i ok hle
    rw [hkept h]
    · exact hw.fresh h hle
    · intro hh
      obtain ⟨-, hown | ⟨hnone, -⟩⟩ := World.init_conn w i ok hh
      · exact hw.unheld hle i hown
      · exact hnew hnone hh
  · rw [World.init_log_conn]
    refine ⟨⟨fun h hh => hw.owned i h hh, fun h hh => ?_⟩, hw.legal⟩
    obtain ⟨-, hown | ⟨hnone, rfl⟩⟩ := World.init_conn w i ok hh
    · exact Or.inl hown
    · exact Or.inr ⟨hnone, hw.fresh _ (Nat.le_refl _)⟩

theorem connect (hw : TableInv w) (hc : (w.c i).conn ≠ none) :
    TableInv (w.call i (.realConnect true)) := by
  obtain ⟨h, hh⟩ := Option.ne_none_iff_exists'.mp hc
  have hstate : ∀ h', handleState h' (w.call i (.realConnect true)).log
      = if h = h' then .connected else handleState h' w.log := by
    intro h'
    rw [World.call_log, hh]
    simp only [handleState_connectCall, Option.some_inj]
  refine ⟨fun j h' hj => ?_, fun j hj => ?_, hw.distinct, fun h' hle => ?_,
    ⟨h, hh, hw.owned i h hh⟩, hw.legal⟩
  · rw [Live, hstate]
    split
    · exact Or.inr rfl
    · exact hw.owned j h' hj
  · obtain ⟨h', hj', hs⟩ := hw.opened j hj
    refine ⟨h', hj', ?_⟩
    rw [hstate, hs, ite_self]
  · have hne : h ≠ h' := fun he => hw.unheld hle i (he ▸ hh)
    rw [hstate, if_neg hne]
    exact hw.fresh h' hle

theorem success (hw : TableInv w)
    (hc : ∃ h, (w.c i).conn = some h ∧ handleState h w.log = .connected) :
    TableInv ((w.set i { w.c i with isopen := true }).note (.success i)) := by
  have hconn : ∀ j, ((w.set i { w.c i with isopen := true }).c j).conn = (w.c j).conn := by
    intro j
    by_cases hj : j = i
    · rw [hj, World.set_c_self]
    · rw [World.set_c_of_ne _ _ _ hj]
  have hset : TableInv (w.set i { w.c i with isopen := true }) := by
    refine ⟨fun j h hj => ?_, fun j hj => ?_, fun j k h hj hk => ?_, hw.fresh, hw.legal⟩
    · rw [hconn] at hj
      exact hw.owned j h hj
    · by_cases hji : j = i
      · rw [hji, World.set_c_self]
        exact hc
      · rw [World.set_c_of_ne _ _ _ hji] at hj ⊢
        exact hw.opened j hj
    · rw [hconn] at hj hk
      exact hw.distinct j k h hj hk
  exact hset.note fun _ _ _ he => by cases he

theorem connected (hw : TableInv w) (hc : (w.c i).conn ≠ none) (ok : Bool) :
    TableInv (w.connected i ok) := by
  have hstat : TableInv ((w.call i (.realConnect true)).call i (.stat ok)) :=
    (hw.connect hc).call_quiet (ClientFn.quiet (by simp) (by simp) (by simp)) hc
  cases ok with
  | false => exact hstat
  | true =>
    obtain ⟨h, hh⟩ := Option.ne_none_iff_exists'.mp hc
    refine hstat.success ⟨h, hh, ?_⟩
    rw [World.call_log, World.call_log, hh]
    exact if_pos rfl

/-- **Every step keeps the invariant.** -/
theorem step {q : QueryType} {w' : World} (hw : TableInv w) (h : SlotStep q i w w') :
    TableInv w' := by
  cases h with
  | plain hfn hc => exact hw.call_quiet (ClientFn.quiet_of_isPlain hfn) hc
  | failed hfn hc =>
    obtain ⟨h, hh, -⟩ := hc
    have hne : (w.c i).conn ≠ none := by
      rw [hh]
      exact Option.some_ne_none h
    rcases hfn with rfl | rfl
    · exact (hw.call_quiet (ClientFn.quiet (by simp) (by simp) (by simp)) hne).drop
    · exact (hw.call_quiet (ClientFn.quiet (by simp) (by simp) (by simp)) hne).drop
  | @fetched hq stmt results hr hc =>
    have hfn : ClientFn.Quiet (.query stmt results) :=
      ClientFn.quiet (by simp) (by simp) (by simp)
    exact (hw.call_quiet hfn hc).call_quiet (ClientFn.quiet (by simp) (by simp) (by simp)) hc
  | release hq => exact (hw.note fun _ _ _ he => by cases he).closeIfOpen
  | attempt hq ok =>
    exact (hw.note fun _ _ _ he => by cases he).closeIfOpen.init ok (World.closeIfOpen_isopen _ i)
  | connect hq hc ho ok => exact hw.connected hc ok

theorem steps {q : QueryType} {w' : World} (hw : TableInv w) (h : Steps q w w') : TableInv w' := by
  induction h with
  | refl => exact hw
  | tail _ h ih =>
    obtain ⟨j, hj⟩ := h
    exact ih.step hj

end TableInv

/-! ### The branches -/

theorem closeBranch_steps {q : QueryType} (hq : q = .CLOSE ∨ q = .CLOSE_ALL) (w : World) (i : Slot) :
    SlotSteps q i w (closeBranch w i) := .single (.release hq)

theorem pinged_steps {q : QueryType} {w : World} {i : Slot} (hw : OpenHeld w)
    (ho : (w.c i).isopen = true)
    (ok : Bool) {k : World → World × Result Unit}
    (hk : SlotSteps q i (w.call i (.ping true)) (k (w.call i (.ping true))).1) :
    SlotSteps q i w (w.pinged i ok k).1 := by
  cases ok with
  | true => exact .head (.plain rfl (hw.ne_none ho)) hk
  | false =>
    refine .head (.failed (Or.inl rfl) (hw i ho)) (.single (.plain rfl ?_))
    rw [World.drop_c_self, World.call_c]
    exact hw.ne_none ho

theorem openBranch_steps (w : World) (i : Slot) (inp : Input) (a : Answers) :
    SlotSteps .OPEN i w (openBranch w i inp a).1 := by
  unfold openBranch
  dsimp only
  refine .head (.attempt rfl a.init) ?_
  have hfree : ((((w.note (.attempt i)).closeIfOpen i).init i a.init).c i).isopen = false := by
    rw [World.init_c_self]
    exact (w.note (.attempt i)).closeIfOpen_isopen i
  generalize ((w.note (.attempt i)).closeIfOpen i).init i a.init = w at hfree ⊢
  split
  · exact .refl
  next hc =>
  split
  · exact .refl
  refine .head (.plain rfl hc : SlotStep .OPEN i w (w.call i .options)) ?_
  cases a.connect with
  | false =>
    refine .head (.plain rfl hc :
      SlotStep .OPEN i (w.call i .options) (World.call _ i (.realConnect false))) ?_
    exact .single (.plain rfl hc)
  | true =>
    have hconnect : SlotStep .OPEN i (w.call i .options) ((w.call i .options).connected i a.stat) :=
      .connect (w := w.call i .options) rfl hc hfree a.stat
    cases hstat : a.stat with
    | false =>
      rw [hstat] at hconnect
      exact .head hconnect (.single (.plain rfl hc))
    | true =>
      rw [hstat] at hconnect
      exact .single hconnect

theorem useBranch_steps {w : World} {i : Slot} (hw : OpenHeld w) (query : CStr) (inp : Input)
    (a : Answers) : SlotSteps .USE i w (useBranch w i query inp a).1 := by
  unfold useBranch
  split
  · next ho =>
    refine pinged_steps hw ho a.ping ?_
    have hc := hw.ne_none ho
    split
    · refine .head (.plain rfl hc :
        SlotStep .USE i (w.call i (.ping true)) (World.call _ i (.selectDb a.selectDb))) ?_
      split
      · exact .refl
      · exact .single (.plain rfl hc)
    · exact .refl
  · exact .refl

theorem fetch_steps {w : World} {i : Slot} (hc : (w.c i).conn ≠ none) (stmt : Bytes)
    {results : Nat} (hr : results ≠ 0) (a : Answers) :
    SlotSteps .CMD i w (fetch (w.call i (.query stmt results)) i a).1 := by
  refine .head (.fetched rfl stmt hr hc) ?_
  unfold fetch
  cases a.stored with
  | noRows => exact .head (.plain rfl hc) (.single (.plain rfl hc))
  | failed => exact .head (.plain rfl hc) (.single (.plain rfl hc))
  | rows output => exact .refl

theorem escapes_steps {w : World} {i : Slot} (hc : (w.c i).conn ≠ none) (n : Nat) :
    SlotSteps .CMD i w (Nat.repeat (fun w => w.call i .escape) n w) ∧
      (Nat.repeat (fun w => w.call i .escape) n w).c = w.c := by
  induction n with
  | zero => exact ⟨.refl, rfl⟩
  | succ n ih =>
    refine ⟨ih.1.tail (.plain rfl ?_), ih.2⟩
    rw [ih.2]
    exact hc

theorem cmdBranch_steps {w : World} {i : Slot} (hw : OpenHeld w) (a : Answers) :
    SlotSteps .CMD i w (cmdBranch w i a).1 := by
  unfold cmdBranch
  split
  · next ho =>
    refine pinged_steps hw ho a.ping ?_
    obtain ⟨hsteps, hc⟩ := escapes_steps (w := w.call i (.ping true)) (hw.ne_none ho) a.escapes
    refine hsteps.trans ?_
    have hc : ((Nat.repeat (fun w => w.call i .escape) a.escapes
        (w.call i (.ping true))).c i).conn ≠ none := by
      rw [hc]
      exact hw.ne_none ho
    generalize Nat.repeat (fun w => w.call i .escape) a.escapes (w.call i (.ping true)) = w at hc ⊢
    dsimp only
    split
    · next stmt _ =>
      split
      · next hr =>
        rw [hr]
        exact .head (.plain rfl hc) (.single (.plain rfl hc))
      · next hr => exact fetch_steps hc stmt hr a
    · exact .refl
  · exact .refl

/-- A loop over the slots is a sequence of steps, if what it does to each slot is. -/
theorem foldl_steps {q : QueryType} {f : World → Slot → World}
    (hf : ∀ w j, TableInv w → SlotSteps q j w (f w j)) (slots : List Slot) {w : World}
    (hw : TableInv w) : Steps q w (slots.foldl f w) := by
  induction slots generalizing w with
  | nil => exact .refl
  | cons j slots ih =>
    have hj := (hf w j hw).steps
    exact hj.trans (ih (hw.steps hj))

theorem reportSlot_steps {w : World} {j : Slot} (hw : TableInv w) (a : Answers) :
    SlotSteps .STATUS j w (reportSlot a w j) := by
  unfold reportSlot
  split
  · next ho =>
    have hc := hw.opened.ne_none ho
    dsimp only
    cases a.pings j with
    | true => exact .head (.plain rfl hc) (.single (.plain rfl hc))
    | false =>
      refine .head (.failed (Or.inl rfl) (hw.opened j ho)) (.single (.plain rfl ?_))
      rw [World.drop_c_self]
      exact hc
  · exact .refl

/-- `closeall` and the report about all connections. -/
def AllSlots (q : QueryType) (inp : Input) : Prop :=
  q = .CLOSE_ALL ∨ (q = .STATUS ∧ inp.nlhs < 1 ∧ inp.id.isAbsent = true)

theorem statusBranch_steps {w : World} {i : Slot} (hw : TableInv w) {inp : Input}
    (hall : ¬AllSlots .STATUS inp) (a : Answers) :
    SlotSteps .STATUS i w (statusBranch w i inp a).1 := by
  have hinfo : ∀ w : World, (w.c i).conn ≠ none → SlotSteps .STATUS i w (w.call i .info) :=
    fun w hc => .single (.plain rfl hc)
  unfold statusBranch
  split
  · next hn =>
    have hid : ¬inp.id.isAbsent = true := fun hid => hall (Or.inr ⟨rfl, hn, hid⟩)
    rw [if_neg hid]
    split
    · next ho => exact pinged_steps hw.opened ho a.ping (hinfo _ (hw.opened.ne_none ho))
    · exact .refl
  · split
    · next ho =>
      have hc := hw.opened.ne_none ho
      dsimp only
      cases a.ping with
      | false => exact .single (.failed (Or.inl rfl) (hw.opened i ho))
      | true =>
        refine .head (.plain rfl hc : SlotStep .STATUS i w (w.call i (.ping true))) ?_
        cases a.stat with
        | false => exact .single (.failed (Or.inr rfl) (hw.opened i ho))
        | true => exact .single (.plain rfl hc)
    · exact .refl

theorem statusBranch_all_steps {w : World} {i : Slot} (hw : TableInv w) {inp : Input}
    (hi : inp.id.isAbsent = true → i = 0) (a : Answers) :
    Steps .STATUS w (statusBranch w i inp a).1 := by
  by_cases hall : AllSlots .STATUS inp
  · obtain hq | ⟨-, hn, hid⟩ := hall
    · cases hq
    unfold statusBranch
    dsimp only
    rw [if_pos hn, if_pos hid]
    split
    · exact .refl
    · split
      · next hone =>
        have ho : (w.c i).isopen = true := by
          rw [hi hid]
          exact hone.2
        have hinfo : SlotSteps .STATUS i (w.call i (.ping true)) ((w.call i (.ping true)).call i .info) :=
          .single (.plain rfl (hw.opened.ne_none ho))
        exact (pinged_steps hw.opened ho a.ping hinfo).steps
      · exact foldl_steps (fun w j hw => reportSlot_steps hw a) _ hw
  · exact (statusBranch_steps hw hall a).steps

/-! ### The command -/

/-- Without an id it is slot 0 that is meant. -/
theorem parse_absent {w : World} {inp : Input} {q : QueryType} {i : Slot}
    (h : parse w inp = .ok (q, i)) (hid : inp.id.isAbsent = true) : i = 0 := by
  have hcid : connectionId inp.id = .ok (some 0) := by
    cases hc : inp.id with
    | absent => rfl
    | _ => rw [hc] at hid; cases hid
  unfold parse at h
  rw [hcid, Outcome.ok_bind] at h
  obtain ⟨q', -, h⟩ := Outcome.bind_eq_ok h
  split at h
  · cases h
  · cases h
    rfl

/-- A command that is addressed to one slot takes its steps there. -/
theorem branch_steps {w : World} (hw : TableInv w) {q : QueryType} {i : Slot} {inp : Input}
    (hall : ¬AllSlots q inp) (a : Answers) : SlotSteps q i w (branch w q i inp a).1 := by
  cases q with
  | OPEN => exact openBranch_steps w i inp a
  | CLOSE => exact closeBranch_steps (Or.inl rfl) w i
  | CLOSE_ALL => exact absurd (Or.inl rfl) hall
  | USE =>
    unfold branch
    dsimp only
    split
    · exact useBranch_steps hw.opened _ inp a
    · exact .refl
  | STATUS => exact statusBranch_steps hw hall a
  | CMD => exact cmdBranch_steps hw.opened a
  | _ => exact .refl

theorem mexFunction_of_parse {w : World} {inp : Input} {q : QueryType} {i : Slot}
    (h : parse w inp = .ok (q, i)) (a : Answers) : mexFunction w inp a = branch w q i inp a := by
  rw [mexFunction, h]

/-- Arguments that are not understood change nothing. -/
theorem mexFunction_of_not_parse {w : World} {inp : Input} (h : ∀ r, parse w inp ≠ .ok r)
    (a : Answers) : (mexFunction w inp a).1 = w := by
  unfold mexFunction
  split
  · next q i hp => exact absurd hp (h (q, i))
  · rfl

/-- **A command is a sequence of steps.** -/
theorem branch_all_steps {w : World} (hw : TableInv w) {inp : Input} {q : QueryType} {i : Slot}
    (hp : parse w inp = .ok (q, i)) (a : Answers) : Steps q w (branch w q i inp a).1 := by
  by_cases hall : AllSlots q inp
  · rcases hall with rfl | ⟨rfl, -, -⟩
    · exact foldl_steps (fun w j _ => closeBranch_steps (Or.inr rfl) w j) _ hw
    · exact statusBranch_all_steps hw (parse_absent hp) a
  · exact (branch_steps hw hall a).steps

/-- What every step keeps, a command keeps. -/
theorem mexFunction_induction {w : World} (hw : TableInv w) {inp : Input} {a : Answers}
    {motive : World → Prop} (hstart : motive w)
    (hstep : ∀ q i w w', TableInv w → SlotStep q i w w' → motive w → motive w') :
    motive (mexFunction w inp a).1 := by
  by_cases hp : ∃ r, parse w inp = .ok r
  · obtain ⟨⟨q, i⟩, hp⟩ := hp
    rw [mexFunction_of_parse hp]
    have hsteps := branch_all_steps hw hp a
    generalize (branch w q i inp a).1 = w' at hsteps
    induction hsteps with
    | refl => exact hstart
    | tail h hs ih =>
      obtain ⟨j, hj⟩ := hs
      exact hstep q j _ _ (hw.steps h) hj ih
  · rw [mexFunction_of_not_parse fun r hr => hp ⟨r, hr⟩]
    exact hstart

/-- The invariant holds after any run. -/
theorem tableInv_run (steps : List (Input × Answers)) : TableInv (run steps) := by
  induction steps with
  | nil => exact tableInv_start
  | cons s older ih => exact mexFunction_induction ih ih fun _ _ _ _ _ h hw => hw.step h

/-- **What every step keeps, a run keeps.** -/
theorem run_induction {motive : World → Prop} (hstart : motive World.start)
    (hstep : ∀ q i w w', TableInv w → SlotStep q i w w' → motive w → motive w')
    (steps : List (Input × Answers)) : motive (run steps) := by
  induction steps with
  | nil => exact hstart
  | cons s older ih => exact mexFunction_induction (tableInv_run older) ih hstep

end Mym
