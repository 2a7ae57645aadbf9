import Mym.SlotSteps

/-!
# Safety of the connection table

What holds of the table after any run: `isopen` says of a slot that its last open succeeded
and nothing has cleared it since (`OpenSince`), an open slot holds a connected handle, the
client is never given NULL or a closed handle, no handle is closed twice, and no two slots
share one (`TableSafe`); the scan for a free slot takes the first one that is not open
(`ScanSafe`); and a command stays on its slot (`FrameSafe`).  `connection_table` assembles
them from `TableInv` and the steps.
-/

namespace Mym

/-! ### When a slot is open -/

/-- What clears `isopen`: being told to close or to open again, and a failed ping or stat. -/
def Clears (i : Slot) : Entry → Prop
  | .attempt j | .release j | .call j _ (.ping false) | .call j _ (.stat false) => j = i
  | _ => False

/-- An open, a close or a closeall gets to slot `i`. -/
def Takes (i : Slot) : Entry → Prop
  | .attempt j | .release j => j = i
  | _ => False

/-- A ping or a stat has failed on slot `i`. -/
def FailedCheck (i : Slot) : Entry → Prop
  | .call j _ (.ping false) | .call j _ (.stat false) => j = i
  | _ => False

theorem clears_iff {i : Slot} {e : Entry} : Clears i e ↔ Takes i e ∨ FailedCheck i e := by
  unfold Clears Takes FailedCheck
  cases e with
  | call j conn fn =>
    cases fn with
    | ping ok => cases ok <;> simp
    | stat ok => cases ok <;> simp
    | _ => simp
  | _ => simp

/-- The last open on slot `i` succeeded, and nothing has cleared it since. -/
def OpenSince (i : Slot) (log : List Entry) : Prop := Since (· = .success i) (Clears i) log

theorem openSince_cons {i : Slot} {e : Entry} {log : List Entry} :
    OpenSince i (e :: log) ↔ e = .success i ∨ (¬Clears i e ∧ OpenSince i log) := since_cons

theorem openSince_of_clears {i : Slot} {e : Entry} (h : Clears i e) (log : List Entry) :
    ¬OpenSince i (e :: log) := by
  refine not_since_of_stop ?_ h log
  rintro rfl
  exact h

/-- An entry that neither clears nor opens. -/
theorem openSince_of_other {i : Slot} {e : Entry} (hs : e ≠ .success i) (hc : ¬Clears i e)
    (log : List Entry) : OpenSince i (e :: log) ↔ OpenSince i log := by
  refine since_of_other ?_ hc log
  exact hs

theorem not_clears_of_isPlain {fn : ClientFn} (h : fn.isPlain = true) (i j : Slot)
    (conn : Option Handle) : ¬Clears j (.call i conn fn) := by
  cases fn with
  | ping ok => cases ok with
    | true => exact id
    | false => cases h
  | stat ok => cases ok with
    | true => exact id
    | false => cases h
  | _ => exact id

/-- `isopen` is what the log says. -/
def OpenSpec (w : World) : Prop := ∀ i, (w.c i).isopen = true ↔ OpenSince i w.log

namespace OpenSpec

variable {w : World} {i : Slot}

theorem call_other (hw : OpenSpec w) {fn : ClientFn} (hfn : ∀ j conn, ¬Clears j (.call i conn fn)) :
    OpenSpec (w.call i fn) := by
  intro j
  rw [World.call_log, openSince_of_other (fun h => by cases h) (hfn j _)]
  exact hw j

/-- A clearing entry for slot `i`, and a slot `i` that is not open. -/
theorem clear (hw : OpenSpec w) {w' : World} {e : Entry} (he : Clears i e)
    (hother : ∀ j, j ≠ i → ¬Clears j e ∧ e ≠ .success j) (hlog : w'.log = e :: w.log)
    (hself : (w'.c i).isopen = false) (hc : ∀ j, j ≠ i → w'.c j = w.c j) : OpenSpec w' := by
  intro j
  rw [hlog]
  by_cases hj : j = i
  · rw [hj, hself]
    exact iff_of_false Bool.false_ne_true (openSince_of_clears he _)
  · obtain ⟨hclear, hsuccess⟩ := hother j hj
    rw [hc j hj, openSince_of_other hsuccess hclear]
    exact hw j

theorem closeIfOpen_note (hw : OpenSpec w) {e : Entry} (he : Clears i e)
    (hother : ∀ j, j ≠ i → ¬Clears j e ∧ e ≠ .success j) :
    OpenSpec ((w.note e).closeIfOpen i) := by
  cases ho : ((w.note e).c i).isopen with
  | false =>
    rw [World.closeIfOpen_of_not ho]
    exact hw.clear he hother rfl ho fun j _ => rfl
  | true =>
    rw [World.closeIfOpen_of_open ho]
    have hlog : OpenSpec (((w.note e).set i ⟨none, false⟩)) :=
      hw.clear he hother rfl (by rw [World.set_c_self]) fun j hj => by
        rw [World.set_c_of_ne _ _ _ hj]
        rfl
    intro j
    rw [World.set_log, World.call_log, openSince_of_other (fun h => by cases h) id]
    exact hlog j

theorem init (hw : OpenSpec w) (ok : Bool) : OpenSpec (w.init i ok) := by
  intro j
  rw [World.init_log, openSince_of_other (fun h => by cases h) id]
  by_cases hj : j = i
  · rw [hj, World.init_c_self]
    exact hw i
  · rw [World.init_c_of_ne _ _ _ hj]
    exact hw j

theorem success (hw : OpenSpec w) :
    OpenSpec ((w.set i { w.c i with isopen := true }).note (.success i)) := by
  intro j
  rw [World.note_log, World.note_c, World.set_log, openSince_cons]
  by_cases hj : j = i
  · rw [hj, World.set_c_self]
    exact iff_of_true rfl (Or.inl rfl)
  · rw [World.set_c_of_ne _ _ _ hj, hw j]
    refine ⟨?_, ?_⟩
    · exact fun h => Or.inr ⟨id, h⟩
    · rintro (h | ⟨-, h⟩)
      · cases h
        exact absurd rfl hj
      · exact h

theorem connected (hw : OpenSpec w) (ho : (w.c i).isopen = false) (ok : Bool) :
    OpenSpec (w.connected i ok) := by
  have hconnect : OpenSpec (w.call i (.realConnect true)) := hw.call_other fun j conn => id
  cases ok with
  | false =>
    exact hconnect.clear (e := .call i (w.c i).conn (.stat false)) rfl
      (fun j hj => ⟨fun h => hj h.symm, fun h => by cases h⟩) rfl ho fun j hj => rfl
  | true =>
    have hstat : OpenSpec ((w.call i (.realConnect true)).call i (.stat true)) :=
      hconnect.call_other fun j conn => id
    exact hstat.success

theorem step {q : QueryType} {w' : World} (hw : OpenSpec w) (h : SlotStep q i w w') : OpenSpec w' := by
  cases h with
  | plain hfn hc => exact hw.call_other fun j conn => not_clears_of_isPlain hfn i j conn
  | failed hfn hc =>
    rcases hfn with rfl | rfl
    · exact hw.clear (e := .call i (w.c i).conn (.ping false)) rfl
        (fun j hj => ⟨fun h => hj h.symm, fun h => by cases h⟩) rfl
        (by rw [World.drop_c_self]) fun j hj => World.drop_c_of_ne _ _ hj
    · exact hw.clear (e := .call i (w.c i).conn (.stat false)) rfl
        (fun j hj => ⟨fun h => hj h.symm, fun h => by cases h⟩) rfl
        (by rw [World.drop_c_self]) fun j hj => World.drop_c_of_ne _ _ hj
  | fetched hq stmt hr hc => exact (hw.call_other fun j conn => id).call_other fun j conn => id
  | release hq =>
    exact hw.closeIfOpen_note rfl fun j hj => ⟨fun h => hj h.symm, fun h => by cases h⟩
  | attempt hq ok =>
    have hclosed : OpenSpec ((w.note (.attempt i)).closeIfOpen i) :=
      hw.closeIfOpen_note rfl fun j hj => ⟨fun h => hj h.symm, fun h => by cases h⟩
    exact hclosed.init ok
  | connect hq hc ho ok => exact hw.connected ho ok

end OpenSpec

/-! ### Closing -/

/-- How often `h` is closed. -/
def closes (h : Handle) : List Entry → Nat
  | [] => 0
  | .call _ conn .close :: older => (if conn = some h then 1 else 0) + closes h older
  | _ :: older => closes h older

/-- A handle that lives has not been closed, and one that is closed is not used again. -/
theorem closes_eq {log : List Entry} (hl : LogOk log) (h : Handle) :
    closes h log = if handleState h log = .closed then 1 else 0 := by
  induction log with
  | nil => rfl
  | cons e log ih =>
    have ih := ih hl.2
    have hlive : Live h log → closes h log = 0 := by
      intro hlive
      rw [ih, if_neg]
      rcases hlive with hs | hs
      · rw [hs]
        decide
      · rw [hs]
        decide
    cases e with
    | call i conn fn =>
      cases fn with
      | init res =>
        cases res with
        | none => exact ih
        | some h' =>
          by_cases he : h' = h
          · subst he
            have hzero : closes h' log = 0 := by
              rcases hl.1.2 h' rfl with hconn | ⟨-, hunused⟩
              · exact hlive (hl.1.1 h' hconn)
              · rw [ih, hunused]
                rfl
            rw [handleState_initCall, if_pos rfl]
            exact hzero
          · rw [handleState_initCall, if_neg he]
            exact ih
      | realConnect ok =>
        cases ok with
        | false => exact ih
        | true =>
          obtain ⟨h', hconn, hlive'⟩ := hl.1
          by_cases he : conn = some h
          · rw [handleState_connectCall, if_pos he]
            rw [hconn] at he
            cases he
            exact hlive hlive'
          · rw [handleState_connectCall, if_neg he]
            exact ih
      | close =>
        obtain ⟨h', hconn, hlive'⟩ := hl.1
        show (if conn = some h then 1 else 0) + closes h log = _
        by_cases he : conn = some h
        · rw [handleState_closeCall, if_pos he, if_pos he]
          rw [hconn] at he
          cases he
          rw [hlive hlive']
          rfl
        · rw [handleState_closeCall, if_neg he, if_neg he, Nat.zero_add]
          exact ih
      | _ => exact ih
    | _ => exact ih

/-! ### Staying on one slot -/

def Entry.slot : Entry → Slot
  | attempt i | success i | release i | call i _ _ => i

/-- Only slot `i` has changed, and only it has been worked on. -/
def OnlySlot (i : Slot) (w w' : World) : Prop :=
  (∀ j, j ≠ i → w'.c j = w.c j) ∧ ∃ new, w'.log = new ++ w.log ∧ ∀ e ∈ new, e.slot = i

theorem OnlySlot.refl (i : Slot) (w : World) : OnlySlot i w w :=
  ⟨fun _ _ => rfl, [], rfl, fun _ h => by cases h⟩

theorem OnlySlot.trans {i : Slot} {a b c : World} (h : OnlySlot i a b) (h' : OnlySlot i b c) :
    OnlySlot i a c := by
  obtain ⟨hc, new, hlog, hnew⟩ := h
  obtain ⟨hc', new', hlog', hnew'⟩ := h'
  refine ⟨fun j hj => (hc' j hj).trans (hc j hj), new' ++ new, ?_, fun e he => ?_⟩
  · rw [hlog', hlog, List.append_assoc]
  · rcases List.mem_append.mp he with he | he
    · exact hnew' e he
    · exact hnew e he

theorem OnlySlot.entry {i : Slot} {w w' : World} {e : Entry} (he : e.slot = i)
    (hlog : w'.log = e :: w.log) (hc : ∀ j, j ≠ i → w'.c j = w.c j) : OnlySlot i w w' :=
  ⟨hc, [e], hlog, fun x hx => by rw [List.mem_singleton.mp hx, he]⟩

theorem OnlySlot.closeIfOpen (i : Slot) (w : World) : OnlySlot i w (w.closeIfOpen i) := by
  cases ho : (w.c i).isopen with
  | false =>
    rw [World.closeIfOpen_of_not ho]
    exact .refl i w
  | true =>
    rw [World.closeIfOpen_of_open ho]
    exact .entry rfl rfl fun j hj => World.set_c_of_ne _ _ _ hj

theorem SlotStep.onlySlot {q : QueryType} {i : Slot} {w w' : World} (h : SlotStep q i w w') :
    OnlySlot i w w' := by
  cases h with
  | plain hfn hc => exact .entry rfl rfl fun _ _ => rfl
  | failed hfn hc => exact .entry rfl rfl fun j hj => World.drop_c_of_ne _ _ hj
  | fetched hq stmt hr hc =>
    exact (OnlySlot.entry rfl rfl fun _ _ => rfl : OnlySlot i w (w.call i _)).trans
      (.entry rfl rfl fun _ _ => rfl)
  | release hq =>
    exact (OnlySlot.entry rfl rfl fun _ _ => rfl : OnlySlot i w (w.note _)).trans (.closeIfOpen i _)
  | attempt hq ok =>
    have hnote : OnlySlot i w (w.note (.attempt i)) := .entry rfl rfl fun _ _ => rfl
    exact (hnote.trans (.closeIfOpen i _)).trans
      (.entry rfl rfl fun j hj => World.init_c_of_ne _ _ _ hj)
  | connect hq hc ho ok =>
    have hstat : OnlySlot i w ((w.call i (.realConnect true)).call i (.stat ok)) :=
      (OnlySlot.entry rfl rfl fun _ _ => rfl : OnlySlot i w (w.call i (.realConnect true))).trans
        (.entry rfl rfl fun _ _ => rfl)
    cases ok with
    | false => exact hstat
    | true => exact hstat.trans (.entry rfl rfl fun j hj => World.set_c_of_ne _ _ _ hj)

theorem SlotSteps.onlySlot {q : QueryType} {i : Slot} {w w' : World} (h : SlotSteps q i w w') :
    OnlySlot i w w' := by
  induction h with
  | refl => exact .refl i w
  | tail _ h ih => exact ih.trans h.onlySlot

/-! ### The table -/

structure TableSafe (w : World) : Prop where
  isopen_iff : ∀ i, (w.c i).isopen = true ↔ OpenSince i w.log
  open_connected : ∀ i, (w.c i).isopen = true →
    ∃ h, (w.c i).conn = some h ∧ handleState h w.log = .connected
  legal : LogOk w.log
  closed_once : ∀ h, closes h w.log ≤ 1
  distinct : ∀ i j h, (w.c i).conn = some h → (w.c j).conn = some h → i = j

/-- An `open` with the id -1. -/
def IsScan (inp : Input) : Prop :=
  inp.id = .number (-1) ∧ (∃ query, inp.command = some (some query) ∧ classify query = .OPEN) ∧
    none ∉ inp.args

/-- It opens the first slot that is not open, leaves the open ones as they are, and changes nothing
when there is none. -/
def ScanSafe (w : World) : Prop :=
  ∀ inp a, IsScan inp →
    ((∀ i, (w.c i).isopen = true) → mexFunction w inp a = (w, .raised .noFreeId)) ∧
    ∀ i, (w.c i).isopen = false → (∀ j < i, (w.c j).isopen = true) →
      mexFunction w inp a = openBranch w i inp a ∧
        ∀ j, (w.c j).isopen = true → (mexFunction w inp a).1.c j = w.c j

/-- A command that is addressed to a slot stays there, and one that is not understood does nothing. -/
def FrameSafe (w : World) : Prop :=
  ∀ inp a, (∀ q i, parse w inp = .ok (q, i) → ¬AllSlots q inp →
      OnlySlot i w (mexFunction w inp a).1) ∧
    ((∀ r, parse w inp ≠ .ok r) → (mexFunction w inp a).1 = w)

theorem openSpec_run (steps : List (Input × Answers)) : OpenSpec (run steps) := by
  refine run_induction ?_ (fun q i w w' _ h hw => hw.step h) steps
  intro i
  exact iff_of_false (fun h => by cases h) (not_since_nil _ _)

theorem tableSafe_run (steps : List (Input × Answers)) : TableSafe (run steps) := by
  have hinv := tableInv_run steps
  refine ⟨openSpec_run steps, hinv.opened, hinv.legal, fun h => ?_, hinv.distinct⟩
  rw [closes_eq hinv.legal]
  split
  · exact Nat.le_refl 1
  · exact Nat.zero_le 1

theorem firstFree_eq {w : World} {i : Slot} (hi : (w.c i).isopen = false)
    (hlt : ∀ j < i, (w.c j).isopen = true) : firstFree w = some i := by
  unfold firstFree
  rw [List.find?_eq_some_iff_getElem]
  refine ⟨by rw [hi]; rfl, i, by rw [List.length_finRange]; exact i.2, ?_, fun j hj => ?_⟩
  · rw [List.getElem_finRange]
    rfl
  · rw [List.getElem_finRange, hlt _ (Fin.lt_def.mpr hj)]
    rfl

theorem parse_scan {w : World} {inp : Input} (h : IsScan inp) :
    parse w inp = pickSlot w .OPEN none >>= fun i => .ok (.OPEN, i) := by
  obtain ⟨hid, ⟨query, hcommand, hopen⟩, hargs⟩ := h
  unfold parse
  rw [hid, hcommand]
  simp [connectionId, queryType, hopen, hargs]

theorem scanSafe (w : World) : ScanSafe w := by
  intro inp a hscan
  have hparse := parse_scan (w := w) hscan
  refine ⟨?_, ?_⟩
  · intro hall
    have hnone : firstFree w = none := by
      unfold firstFree
      rw [List.find?_eq_none]
      intro i _
      rw [hall i]
      decide
    rw [pickSlot, if_pos rfl, hnone] at hparse
    rw [mexFunction, hparse]
    rfl
  · intro i hi hlt
    rw [pickSlot, if_pos rfl, firstFree_eq hi hlt] at hparse
    have hopen := mexFunction_of_parse (hparse.trans rfl) a
    refine ⟨hopen, fun j hj => ?_⟩
    rw [hopen]
    have hne : j ≠ i := by
      rintro rfl
      rw [hi] at hj
      cases hj
    exact (openBranch_steps w i inp a).onlySlot.1 j hne

theorem frameSafe {w : World} (hw : TableInv w) : FrameSafe w := by
  intro inp a
  refine ⟨fun q i hparse hall => ?_, fun hno => mexFunction_of_not_parse hno a⟩
  rw [mexFunction_of_parse hparse]
  exact (branch_steps hw hall a).onlySlot

/-- **The connection table is safe** after any run, whatever the client answers. -/
theorem connection_table (steps : List (Input × Answers)) :
    TableSafe (run steps) ∧ ScanSafe (run steps) ∧ FrameSafe (run steps) :=
  ⟨tableSafe_run steps, scanSafe (run steps), frameSafe (tableInv_run steps)⟩

end Mym
