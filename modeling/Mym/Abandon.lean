import Mym.ConnectionTable

/-!
# Connections that are left behind

Whether a connection is released is decided by `isopen`, while the connection itself is in
`conn`.  A failed ping or stat clears the one and leaves the other: the slot is `Dropped`,
and it holds a connected handle that is not open (`DropSpec`).  The next open on the slot
initialises over that handle, the next close or closeall skips it.  So connections are
released (`NoneAbandoned`) as long as no open, close or closeall gets to a dropped slot,
and no longer (`noneAbandoned_iff`).
-/

namespace Mym

/-! ### Releasing -/

/-- The handle that slot `i` holds. -/
def held (i : Slot) : List Entry → Option Handle
  | [] => none
  | .call j _ (.init res) :: older => if j = i then res else held i older
  | .call j _ .close :: older => if j = i then none else held i older
  | _ :: older => held i older

/-- A connection has been made on the handle `h` of slot `i`, and not been closed. -/
def Connected (i : Slot) (h : Handle) (log : List Entry) : Prop :=
  held i log = some h ∧ handleState h log = .connected

/-- An open, a close or a closeall that finds a connection on its slot closes it at once, and
`mysql_init` is not called on a connected handle. -/
def Releases (older : List Entry) : Entry → Option Entry → Prop
  | .attempt i, next | .release i, next =>
    ∀ h, Connected i h older → next = some (.call i (some h) .close)
  | .call _ (some h) (.init _), _ => handleState h older ≠ .connected
  | _, _ => True

abbrev NoneAbandoned (log : List Entry) : Prop := Followed Releases none log

/-- A ping or a stat has failed on slot `i`, and it has not been opened again. -/
def Dropped (i : Slot) (log : List Entry) : Prop :=
  Since (FailedCheck i) (fun e => e = .success i ∨ e = .attempt i) log

/-- No open, close or closeall gets to a dropped slot. -/
abbrev NoneDropped (log : List Entry) : Prop :=
  Throughout (fun older e => ∀ i, Takes i e → ¬Dropped i older) log

/-! ### The slots according to the log -/

theorem held_of_ne {i : Slot} {e : Entry} (h : e.slot ≠ i) (log : List Entry) :
    held i (e :: log) = held i log := by
  cases e with
  | call j conn fn =>
    cases fn with
    | init res => exact if_neg h
    | close => exact if_neg h
    | _ => rfl
  | _ => rfl

theorem held_append_of_ne {i : Slot} {new : List Entry} (h : ∀ e ∈ new, e.slot ≠ i)
    (log : List Entry) : held i (new ++ log) = held i log := by
  induction new with
  | nil => rfl
  | cons e new ih =>
    rw [List.cons_append, held_of_ne (h e List.mem_cons_self)]
    exact ih fun x hx => h x (List.mem_cons_of_mem _ hx)

theorem failedCheck_slot {i : Slot} {e : Entry} (h : FailedCheck i e) : e.slot = i := by
  unfold FailedCheck at h
  split at h
  · exact h
  · exact h
  · exact h.elim

theorem dropped_append_of_ne {i : Slot} {new : List Entry} (h : ∀ e ∈ new, e.slot ≠ i)
    (log : List Entry) : Dropped i (new ++ log) ↔ Dropped i log := by
  refine since_append_of_other (fun e he => ⟨fun hf => h e he (failedCheck_slot hf), ?_⟩) log
  intro hor
  rcases hor with rfl | rfl
  · exact h _ he rfl
  · exact h _ he rfl

theorem dropped_call {i j : Slot} {conn : Option Handle} {fn : ClientFn}
    (h : ¬FailedCheck i (.call j conn fn)) (log : List Entry) :
    Dropped i (.call j conn fn :: log) ↔ Dropped i log := by
  refine since_of_other h ?_ log
  rintro (he | he) <;> cases he

theorem dropped_release (i j : Slot) (log : List Entry) :
    Dropped i (.release j :: log) ↔ Dropped i log := by
  refine since_of_other id ?_ log
  rintro (he | he) <;> cases he

theorem dropped_failed {i : Slot} {e : Entry} (h : FailedCheck i e) (log : List Entry) :
    Dropped i (e :: log) := since_cons.mpr (Or.inl h)

theorem not_dropped_attempt (i : Slot) (log : List Entry) : ¬Dropped i (.attempt i :: log) := by
  apply not_since_of_stop
  · exact id
  · exact Or.inr rfl

theorem not_dropped_success (i : Slot) (log : List Entry) : ¬Dropped i (.success i :: log) := by
  apply not_since_of_stop
  · exact id
  · exact Or.inl rfl

/-! ### Other slots -/

theorem handleState_call_of_ne {h : Handle} {conn : Option Handle} {fn : ClientFn}
    (hc : conn ≠ some h) (hfn : fn ≠ .init (some h)) (i : Slot) (log : List Entry) :
    handleState h (.call i conn fn :: log) = handleState h log := by
  cases fn with
  | init res =>
    cases res with
    | none => rfl
    | some h' =>
      refine if_neg ?_
      rintro rfl
      exact hfn rfl
  | realConnect ok =>
    cases ok with
    | false => rfl
    | true => exact if_neg hc
  | close => exact if_neg hc
  | _ => rfl

theorem handleState_closeIfOpen {h : Handle} {w : World} {i : Slot} (hc : (w.c i).conn ≠ some h) :
    handleState h (w.closeIfOpen i).log = handleState h w.log := by
  cases ho : (w.c i).isopen with
  | false => rw [World.closeIfOpen_of_not ho]
  | true =>
    rw [World.closeIfOpen_of_open ho]
    exact handleState_call_of_ne hc (by simp) i w.log

theorem handleState_init {h : Handle} {w : World} {i : Slot} (hc : (w.c i).conn ≠ some h)
    (hnext : h ≠ w.next) (ok : Bool) :
    handleState h (w.init i ok).log = handleState h w.log := by
  refine handleState_call_of_ne hc ?_ i w.log
  cases ok with
  | false => simp
  | true =>
    cases hconn : (w.c i).conn with
    | none =>
      intro hw
      cases hw
      exact hnext rfl
    | some h' =>
      intro hw
      cases hw
      exact hc hconn

/-- A step does not touch the handles of other slots. -/
theorem SlotStep.handleState_other {q : QueryType} {i j : Slot} {w w' : World} (hw : TableInv w)
    (h : SlotStep q i w w') (hj : j ≠ i) {h' : Handle} (hh : (w.c j).conn = some h') :
    handleState h' w'.log = handleState h' w.log := by
  have hc : (w.c i).conn ≠ some h' := fun hi => hj (hw.distinct j i h' hh hi)
  cases h with
  | @plain fn hfn hne =>
    refine handleState_call_of_ne hc ?_ i w.log
    rintro rfl
    cases hfn
  | failed hfn hne =>
    refine handleState_call_of_ne hc ?_ i w.log
    rcases hfn with rfl | rfl <;> simp
  | fetched hq stmt hr hne =>
    exact (handleState_call_of_ne hc (by simp) i _).trans
      (handleState_call_of_ne hc (by simp) i w.log)
  | release hq => exact handleState_closeIfOpen (w := w.note (.release i)) hc
  | attempt hq ok =>
    have hnext : h' ≠ w.next := fun he => hw.unheld (Nat.le_refl _) j (he ▸ hh)
    have hclosed := handleState_closeIfOpen (w := w.note (.attempt i)) hc
    refine (handleState_init ?_ ?_ ok).trans hclosed
    · rcases World.closeIfOpen_conn (w.note (.attempt i)) i with hnone | hsame
      · rw [hnone]
        exact (Option.some_ne_none h').symm
      · rw [hsame]
        exact hc
    · rw [World.closeIfOpen_next]
      exact hnext
  | connect hq hne ho ok =>
    have hstat : handleState h' ((w.call i (.realConnect true)).call i (.stat ok)).log
        = handleState h' w.log :=
      (handleState_call_of_ne hc (by simp) i _).trans
        (handleState_call_of_ne hc (by simp) i w.log)
    cases ok with
    | false => exact hstat
    | true => exact hstat

/-! ### Dropped slots -/

/-- Slot `i` holds a connection and is not open. -/
def Stranded (i : Slot) (w : World) : Prop :=
  (w.c i).isopen = false ∧ ∃ h, (w.c i).conn = some h ∧ handleState h w.log = .connected

/-- What the log says of slot `i`. -/
structure DropSpec (i : Slot) (w : World) : Prop where
  held_eq : held i w.log = (w.c i).conn
  dropped_iff : Dropped i w.log ↔ Stranded i w

namespace DropSpec

variable {w : World} {i : Slot}

theorem other {q : QueryType} {j : Slot} {w' : World} (hd : DropSpec j w) (hw : TableInv w)
    (h : SlotStep q i w w') (hj : j ≠ i) : DropSpec j w' := by
  obtain ⟨hc, new, hlog, hnew⟩ := h.onlySlot
  have hne : ∀ e ∈ new, e.slot ≠ j := fun e he heq => hj (heq.symm.trans (hnew e he))
  refine ⟨?_, ?_⟩
  · rw [hlog, held_append_of_ne hne, hc j hj]
    exact hd.held_eq
  · have hdropped : Dropped j w'.log ↔ Dropped j w.log := by
      rw [hlog]
      exact dropped_append_of_ne hne w.log
    rw [hdropped, hd.dropped_iff, Stranded, Stranded, hc j hj]
    refine and_congr_right fun _ => exists_congr fun h' => and_congr_right fun hh => ?_
    rw [h.handleState_other hw hj hh]

/-- A call that changes nothing about the slot. -/
theorem call (hd : DropSpec i w) {fn : ClientFn} (hfn : fn.Quiet) (hclose : fn ≠ .close)
    (hok : ∀ conn, ¬FailedCheck i (.call i conn fn)) : DropSpec i (w.call i fn) := by
  refine ⟨?_, ?_⟩
  · rw [World.call_c, ← hd.held_eq]
    cases fn with
    | init res => exact absurd rfl (hfn.1 res)
    | close => exact absurd rfl hclose
    | _ => rfl
  · rw [World.call_log, dropped_call (hok _), hd.dropped_iff, Stranded, Stranded, World.call_c]
    refine and_congr_right fun _ => exists_congr fun h' => and_congr_right fun hh => ?_
    rw [World.call_log, hfn.2]

theorem failed (hd : DropSpec i w) {fn : ClientFn} (hfn : fn = .ping false ∨ fn = .stat false)
    (hc : ∃ h, (w.c i).conn = some h ∧ handleState h w.log = .connected) :
    DropSpec i ((w.call i fn).drop i) := by
  obtain ⟨h, hh, hstate⟩ := hc
  have hheld : ((w.drop i).c i).conn = (w.c i).conn := by rw [World.drop_c_self]
  have hclosed : ((w.drop i).c i).isopen = false := by rw [World.drop_c_self]
  rcases hfn with rfl | rfl
  · have hf : FailedCheck i (.call i (w.c i).conn (.ping false)) := rfl
    exact ⟨hd.held_eq.trans hheld.symm,
      iff_of_true (dropped_failed hf _) ⟨hclosed, h, hheld.trans hh, hstate⟩⟩
  · have hf : FailedCheck i (.call i (w.c i).conn (.stat false)) := rfl
    exact ⟨hd.held_eq.trans hheld.symm,
      iff_of_true (dropped_failed hf _) ⟨hclosed, h, hheld.trans hh, hstate⟩⟩

theorem closeIfOpen (hd : DropSpec i w) : DropSpec i (w.closeIfOpen i) := by
  cases ho : (w.c i).isopen with
  | false =>
    rw [World.closeIfOpen_of_not ho]
    exact hd
  | true =>
    rw [World.closeIfOpen_of_open ho]
    refine ⟨?_, ?_⟩
    · rw [World.set_c_self]
      exact if_pos rfl
    · rw [World.set_log, World.call_log, dropped_call id, hd.dropped_iff]
      refine iff_of_false ?_ ?_
      · intro hw
        obtain ⟨hclosed, -⟩ := hw
        rw [ho] at hclosed
        cases hclosed
      · intro hw
        obtain ⟨-, h, hh, -⟩ := hw
        rw [World.set_c_self] at hh
        cases hh

theorem release (hd : DropSpec i w) : DropSpec i ((w.note (.release i)).closeIfOpen i) := by
  have hnote : DropSpec i (w.note (.release i)) :=
    ⟨hd.held_eq, (dropped_release i i w.log).trans hd.dropped_iff⟩
  exact hnote.closeIfOpen

/-- After `mysql_init` the handle is not connected. -/
theorem attempt (w : World) (i : Slot) (ok : Bool) :
    DropSpec i (((w.note (.attempt i)).closeIfOpen i).init i ok) := by
  have hnot : ¬Dropped i ((w.note (.attempt i)).closeIfOpen i).log := by
    cases ho : ((w.note (.attempt i)).c i).isopen with
    | false =>
      rw [World.closeIfOpen_of_not ho]
      exact not_dropped_attempt i w.log
    | true =>
      rw [World.closeIfOpen_of_open ho, World.set_log, World.call_log, dropped_call id]
      exact not_dropped_attempt i w.log
  generalize (w.note (.attempt i)).closeIfOpen i = w₁ at hnot ⊢
  refine ⟨?_, ?_⟩
  · rw [World.init_log, World.init_c_self]
    exact if_pos rfl
  · rw [World.init_log, dropped_call id]
    refine iff_of_false hnot ?_
    intro hw
    obtain ⟨-, h, hh, hstate⟩ := hw
    rw [World.init_c_self] at hh
    rw [World.init_log] at hstate
    cases ok with
    | false => cases hh
    | true =>
      cases hh
      have hinit : handleState ((w₁.c i).conn.getD w₁.next)
          (.call i (w₁.c i).conn (.init (some ((w₁.c i).conn.getD w₁.next))) :: w₁.log)
          = .inited := if_pos rfl
      rw [if_pos rfl, hinit] at hstate
      cases hstate

theorem connected (hd : DropSpec i w) (hc : (w.c i).conn ≠ none) (ho : (w.c i).isopen = false)
    (ok : Bool) : DropSpec i (w.connected i ok) := by
  obtain ⟨h, hh⟩ := Option.ne_none_iff_exists'.mp hc
  cases ok with
  | false =>
    have hf : FailedCheck i (.call i (w.c i).conn (.stat false)) := rfl
    refine ⟨hd.held_eq, iff_of_true (dropped_failed hf _) ⟨ho, h, hh, ?_⟩⟩
    show handleState h (.call i (w.c i).conn (.realConnect true) :: w.log) = .connected
    rw [hh]
    exact if_pos rfl
  | true =>
    refine ⟨?_, iff_of_false (not_dropped_success i _) ?_⟩
    · rw [World.connected, if_pos rfl, World.note_c, World.set_c_self]
      exact hd.held_eq
    · intro hw
      obtain ⟨hclosed, -⟩ := hw
      rw [World.connected, if_pos rfl, World.note_c, World.set_c_self] at hclosed
      cases hclosed

theorem self {q : QueryType} {w' : World} (hd : DropSpec i w) (h : SlotStep q i w w') :
    DropSpec i w' := by
  have hok : ∀ {fn : ClientFn}, fn.isPlain = true → ∀ conn, ¬FailedCheck i (.call i conn fn) :=
    fun hfn conn hf => not_clears_of_isPlain hfn i i conn (clears_iff.mpr (Or.inr hf))
  cases h with
  | plain hfn hc =>
    refine hd.call (ClientFn.quiet_of_isPlain hfn) ?_ (hok hfn)
    rintro rfl
    cases hfn
  | failed hfn hc => exact hd.failed hfn hc
  | @fetched hq stmt results hr hc =>
    have hquery : DropSpec i (w.call i (.query stmt results)) :=
      hd.call (ClientFn.quiet (by simp) (by simp) (by simp)) (by simp) fun _ => id
    exact hquery.call (ClientFn.quiet (by simp) (by simp) (by simp)) (by simp) fun _ => id
  | release hq => exact hd.release
  | attempt hq ok => exact attempt w i ok
  | connect hq hc ho ok => exact hd.connected hc ho ok

end DropSpec

theorem dropSpec_step {q : QueryType} {i : Slot} {w w' : World} (hw : TableInv w)
    (hd : ∀ j, DropSpec j w) (h : SlotStep q i w w') (j : Slot) : DropSpec j w' := by
  by_cases hj : j = i
  · subst hj
    exact (hd j).self h
  · exact (hd j).other hw h hj

/-! ### Both conditions, step by step -/

/-- The connections are released exactly as long as no dropped slot is met. -/
def Agree (log : List Entry) : Prop := NoneAbandoned log ↔ NoneDropped log

/-- An entry that is no `mysql_close` releases nothing that came before it. -/
theorem followed_other {e : Entry} (hclose : ∀ i conn, e ≠ .call i conn .close)
    (log : List Entry) : Followed Releases (some e) log ↔ NoneAbandoned log := by
  refine followed_congr (fun older x => ?_) log
  have hwait : ∀ i, (∀ h, Connected i h older → some e = some (Entry.call i (some h) .close)) ↔
      ∀ h, Connected i h older → none = some (Entry.call i (some h) .close) := by
    intro i
    refine forall_congr' fun h => imp_congr_right fun _ => iff_of_false ?_ (by simp)
    exact fun heq => hclose i (some h) (Option.some.inj heq)
  cases x with
  | attempt i => exact hwait i
  | release i => exact hwait i
  | success i => exact Iff.rfl
  | call i conn fn =>
    cases conn with
    | none => exact Iff.rfl
    | some h =>
      cases fn with
      | init res => exact Iff.rfl
      | _ => exact Iff.rfl

theorem noneAbandoned_cons {e : Entry} (hclose : ∀ i conn, e ≠ .call i conn .close)
    (log : List Entry) : NoneAbandoned (e :: log) ↔ Releases log e none ∧ NoneAbandoned log :=
  and_congr_right' (followed_other hclose log)

theorem noneDropped_cons {e : Entry} (he : ∀ i, ¬Takes i e) (log : List Entry) :
    NoneDropped (e :: log) ↔ NoneDropped log :=
  ⟨fun h => h.2, fun h => ⟨fun i hi => absurd hi (he i), h⟩⟩

theorem Agree.success {log : List Entry} (h : Agree log) (i : Slot) : Agree (.success i :: log) := by
  have htriv : NoneAbandoned (.success i :: log) ↔ NoneAbandoned log :=
    (noneAbandoned_cons (by simp) log).trans (and_iff_right trivial)
  exact htriv.trans (h.trans (noneDropped_cons (fun _ => id) log).symm)

theorem Agree.call {log : List Entry} (h : Agree log) {fn : ClientFn} (hinit : ∀ res, fn ≠ .init res)
    (hclose : fn ≠ .close) (i : Slot) (conn : Option Handle) : Agree (.call i conn fn :: log) := by
  have hrel : Releases log (.call i conn fn) none := by
    cases conn with
    | none => trivial
    | some h =>
      cases fn with
      | init res => exact absurd rfl (hinit res)
      | _ => trivial
  have htriv : NoneAbandoned (.call i conn fn :: log) ↔ NoneAbandoned log := by
    refine (noneAbandoned_cons ?_ log).trans (and_iff_right hrel)
    rintro j conn' ⟨⟩
    exact hclose rfl
  exact htriv.trans (h.trans (noneDropped_cons (fun _ => id) log).symm)

theorem noneDropped_taken {i : Slot} {e : Entry} (he : e = .attempt i ∨ e = .release i)
    (log : List Entry) : NoneDropped (e :: log) ↔ ¬Dropped i log ∧ NoneDropped log := by
  refine and_congr_left' ⟨fun h => h i ?_, fun h j hj => ?_⟩
  · rcases he with rfl | rfl
    · rfl
    · rfl
  · have hij : i = j := by
      rcases he with rfl | rfl
      · exact hj
      · exact hj
    rw [← hij]
    exact h

theorem releases_taken {i : Slot} {e : Entry} (he : e = .attempt i ∨ e = .release i)
    (log : List Entry) (next : Option Entry) : Releases log e next ↔
      ∀ h, Connected i h log → next = some (.call i (some h) .close) := by
  rcases he with rfl | rfl
  · exact Iff.rfl
  · exact Iff.rfl

/-- A slot that is taken is closed, or else it was not open, and then it holds a connection if and
only if it is dropped. -/
theorem Agree.taken {w : World} (h : Agree w.log) {i : Slot} (hd : DropSpec i w) {e : Entry}
    (he : e = .attempt i ∨ e = .release i) :
    Agree ((w.note e).closeIfOpen i).log := by
  have hneutral : ∀ j conn, e ≠ .call j conn .close := by
    rcases he with rfl | rfl
    · simp
    · simp
  cases ho : ((w.note e).c i).isopen with
  | false =>
    rw [World.closeIfOpen_of_not ho]
    refine (noneAbandoned_cons hneutral w.log).trans ?_
    refine (and_congr ?_ h).trans (noneDropped_taken he w.log).symm
    rw [releases_taken he, hd.dropped_iff, Stranded, not_and]
    refine ⟨?_, ?_⟩
    · rintro hrel - ⟨h', hh, hstate⟩
      cases hrel h' ⟨hd.held_eq.trans hh, hstate⟩
    · rintro hnot h' ⟨hh, hstate⟩
      exact absurd ⟨h', hd.held_eq.symm.trans hh, hstate⟩ (hnot ho)
  | true =>
    have hnot : ¬Dropped i w.log := by
      rw [hd.dropped_iff]
      intro hw
      obtain ⟨hclosed, -⟩ := hw
      rw [World.note_c, hclosed] at ho
      cases ho
    have hrel : Releases w.log e (some (.call i (w.c i).conn .close)) := by
      rw [releases_taken he]
      rintro h' ⟨hh, -⟩
      rw [← hd.held_eq, hh]
    rw [World.closeIfOpen_of_open ho]
    have hclose : Releases (e :: w.log) (.call i (w.c i).conn .close) none := by
      cases (w.c i).conn with
      | none => trivial
      | some h' => trivial
    have hlog : NoneAbandoned (.call i (w.c i).conn .close :: e :: w.log) ↔ NoneAbandoned w.log :=
      (and_iff_right hclose).trans ((and_iff_right hrel).trans (followed_other hneutral w.log))
    have hdropped : NoneDropped (.call i (w.c i).conn .close :: e :: w.log) ↔ NoneDropped w.log :=
      (noneDropped_cons (fun _ => id) _).trans
        ((noneDropped_taken he w.log).trans (and_iff_right hnot))
    exact hlog.trans (h.trans hdropped.symm)

theorem Agree.attempt {w : World} (h : Agree w.log) {i : Slot} (hd : DropSpec i w) (ok : Bool) :
    Agree (((w.note (.attempt i)).closeIfOpen i).init i ok).log := by
  have htaken := h.taken hd (Or.inl rfl)
  -- the handle that is initialised is not connected, or else the slot was dropped
  have hfree : NoneDropped ((w.note (.attempt i)).closeIfOpen i).log →
      ∀ h', (((w.note (.attempt i)).closeIfOpen i).c i).conn = some h' →
        handleState h' ((w.note (.attempt i)).closeIfOpen i).log ≠ .connected := by
    intro hnone h' hh hstate
    cases ho : ((w.note (.attempt i)).c i).isopen with
    | false =>
      rw [World.closeIfOpen_of_not ho] at hnone hh hstate
      exact hnone.1 i rfl (hd.dropped_iff.mpr ⟨ho, h', hh, hstate⟩)
    | true =>
      rw [World.closeIfOpen_of_open ho, World.set_c_self] at hh
      cases hh
  generalize (w.note (.attempt i)).closeIfOpen i = w₁ at htaken hfree ⊢
  rw [World.init_log]
  refine (noneAbandoned_cons (by simp) w₁.log).trans ?_
  refine Iff.trans ?_ (noneDropped_cons (fun _ => id) w₁.log).symm
  refine ⟨?_, ?_⟩
  · intro hw
    obtain ⟨-, hnone⟩ := hw
    exact htaken.mp hnone
  · intro hnone
    refine ⟨?_, htaken.mpr hnone⟩
    cases hc : (w₁.c i).conn with
    | none => trivial
    | some h' => exact hfree hnone h' hc

theorem Agree.step {q : QueryType} {i : Slot} {w w' : World} (h : Agree w.log)
    (hd : DropSpec i w) (hs : SlotStep q i w w') : Agree w'.log := by
  cases hs with
  | plain hfn hc =>
    refine h.call ?_ ?_ i _
    · rintro res rfl
      cases hfn
    · rintro rfl
      cases hfn
  | failed hfn hc =>
    rcases hfn with rfl | rfl
    · exact h.call (by simp) (by simp) i _
    · exact h.call (by simp) (by simp) i _
  | @fetched hq stmt results hr hc =>
    have hquery : Agree (w.call i (.query stmt results)).log := h.call (by simp) (by simp) i _
    exact hquery.call (by simp) (by simp) i _
  | release hq => exact h.taken hd (Or.inr rfl)
  | attempt hq ok => exact h.attempt hd ok
  | connect hq hc ho ok =>
    have hconnect : Agree (w.call i (.realConnect true)).log := h.call (by simp) (by simp) i _
    have hstat : Agree ((w.call i (.realConnect true)).call i (.stat ok)).log :=
      hconnect.call (by simp) (by simp) i _
    cases ok with
    | false => exact hstat
    | true => exact hstat.success i

/-- **When connections are released.** -/
theorem noneAbandoned_iff (steps : List (Input × Answers)) :
    NoneAbandoned (run steps).log ↔ NoneDropped (run steps).log := by
  have hinv : (∀ j, DropSpec j (run steps)) ∧ Agree (run steps).log := by
    refine run_induction (motive := fun w => (∀ j, DropSpec j w) ∧ Agree w.log) ?_ ?_ steps
    · refine ⟨fun j => ⟨rfl, iff_of_false (not_since_nil _ _) ?_⟩, iff_of_true trivial trivial⟩
      intro hgiven
      obtain ⟨-, h, hh, -⟩ := hgiven
      cases hh
    · rintro q i w w' hw h ⟨hd, hagree⟩
      exact ⟨dropSpec_step hw hd h, hagree.step (hd i) h⟩
  exact hinv.2

/-! ### A dropped slot -/

/-- A query whose ping fails, and then an `open` on the same slot. -/
def reopened : List (Input × Answers) :=
  [(command openCommand, allWell [] 1), (command select, { allWell select.1 1 with ping := false }),
    (command openCommand, allWell [] 1)]

theorem reopened_abandons : ¬NoneAbandoned (run reopened).log := by
  have hlog : (run reopened).log
      = [.success 0, .call 0 (some 0) (.stat true), .call 0 (some 0) (.realConnect true),
        .call 0 (some 0) .options, .call 0 (some 0) (.init (some 0)), .attempt 0,
        .call 0 (some 0) .error, .call 0 (some 0) (.ping false),
        .success 0, .call 0 (some 0) (.stat true), .call 0 (some 0) (.realConnect true),
        .call 0 (some 0) .options, .call 0 none (.init (some 0)), .attempt 0] := by
    decide
  rw [hlog]
  simp [Followed, Releases, handleState]

end Mym
