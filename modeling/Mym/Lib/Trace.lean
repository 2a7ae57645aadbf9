import Mathlib.Data.List.Infix

/-!
# Logs

A log lists what has happened, the newest first, so that the entries behind an entry are
its past.  A condition on an entry and its past is required of a whole log with
`Throughout`; one that also looks at what comes next, with `Followed`.  `Since P Q` says of
a log that some `P` has happened, with no `Q` after it.
-/

namespace Mym

variable {ε : Type}

/-- Every entry is in order, given the ones before it. -/
def Throughout (ok : List ε → ε → Prop) : List ε → Prop
  | [] => True
  | e :: older => ok older e ∧ Throughout ok older

theorem Throughout.of_suffix {ok : List ε → ε → Prop} {l l' : List ε} (h : Throughout ok l')
    (hs : l <:+ l') : Throughout ok l := by
  obtain ⟨new, rfl⟩ := hs
  induction new with
  | nil => exact h
  | cons e new ih => exact ih h.2

/-- Every entry is in order, given the ones before it and the one after it; the newest is followed
by `next`. -/
def Followed (ok : List ε → ε → Option ε → Prop) (next : Option ε) : List ε → Prop
  | [] => True
  | e :: older => ok older e next ∧ Followed ok (some e) older

/-- Only the newest entry sees what follows. -/
theorem followed_congr {ok : List ε → ε → Option ε → Prop} {next next' : Option ε}
    (h : ∀ older e, ok older e next ↔ ok older e next') (log : List ε) :
    Followed ok next log ↔ Followed ok next' log := by
  cases log with
  | nil => exact Iff.rfl
  | cons e older => exact and_congr_left' (h older e)

/-- Some `P` has happened, and no `Q` after the last one. -/
def Since (P Q : ε → Prop) (log : List ε) : Prop :=
  ∃ after e before, log = after ++ e :: before ∧ P e ∧ ∀ x ∈ after, ¬Q x

theorem not_since_nil (P Q : ε → Prop) : ¬Since P Q [] := by
  intro h
  obtain ⟨after, e, before, heq, -⟩ := h
  cases after with
  | nil => cases heq
  | cons x after => cases heq

theorem since_cons {P Q : ε → Prop} {e : ε} {log : List ε} :
    Since P Q (e :: log) ↔ P e ∨ (¬Q e ∧ Since P Q log) := by
  refine ⟨?_, ?_⟩
  · intro h
    obtain ⟨after, x, before, heq, hx, hnot⟩ := h
    cases after with
    | nil =>
      rw [List.nil_append] at heq
      obtain ⟨rfl, -⟩ := List.cons.inj heq
      exact Or.inl hx
    | cons x' after =>
      obtain ⟨rfl, htail⟩ := List.cons.inj heq
      exact Or.inr ⟨hnot e List.mem_cons_self,
        after, x, before, htail, hx, fun y hy => hnot y (List.mem_cons_of_mem _ hy)⟩
  · intro h
    rcases h with he | ⟨hnot, after, x, before, heq, hx, hafter⟩
    · exact ⟨[], e, log, rfl, he, fun y hy => by cases hy⟩
    · refine ⟨e :: after, x, before, by rw [heq, List.cons_append], hx, fun y hy => ?_⟩
      rcases List.mem_cons.mp hy with rfl | hy
      · exact hnot
      · exact hafter y hy

/-- An entry that is neither. -/
theorem since_of_other {P Q : ε → Prop} {e : ε} (hP : ¬P e) (hQ : ¬Q e) (log : List ε) :
    Since P Q (e :: log) ↔ Since P Q log := by
  rw [since_cons]
  refine ⟨?_, ?_⟩
  · intro hor
    rcases hor with h | ⟨-, h⟩
    · exact absurd h hP
    · exact h
  · exact fun h => Or.inr ⟨hQ, h⟩

theorem since_append_of_other {P Q : ε → Prop} {new : List ε} (hnew : ∀ e ∈ new, ¬P e ∧ ¬Q e)
    (log : List ε) : Since P Q (new ++ log) ↔ Since P Q log := by
  induction new with
  | nil => exact Iff.rfl
  | cons e new ih =>
    obtain ⟨hP, hQ⟩ := hnew e List.mem_cons_self
    exact (since_of_other hP hQ (new ++ log)).trans
      (ih fun x hx => hnew x (List.mem_cons_of_mem _ hx))

theorem not_since_of_stop {P Q : ε → Prop} {e : ε} (hP : ¬P e) (hQ : Q e) (log : List ε) :
    ¬Since P Q (e :: log) := by
  rw [since_cons]
  intro hor
  rcases hor with h | ⟨h, -⟩
  · exact hP h
  · exact h hQ

/-- A later start, and an earlier stop, leave less. -/
theorem Since.mono {P Q Q' : ε → Prop} {log : List ε} (h : Since P Q log)
    (hQ : ∀ e ∈ log, Q' e → Q e) : Since P Q' log := by
  obtain ⟨after, e, before, heq, he, hafter⟩ := h
  refine ⟨after, e, before, heq, he, fun x hx hq => hafter x hx (hQ x ?_ hq)⟩
  rw [heq]
  exact List.mem_append_left _ hx

end Mym
