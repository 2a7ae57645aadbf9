import Mym.Lib.Outcome

/-!
# Loops with a condition

`loop p step n` is `while (p) step`, cut off after `n` rounds with `diverged`.  More rounds change
nothing once the loop has ended (`loop_eq_of_le`), so what a loop ends in with enough rounds is one
ending (`loop_unique`).

`Rounds p step k s t` says that `k` rounds lead from `s` to `t`.  They can be cut off in front of a
loop (`loop_of_rounds`).  With an invariant that makes the condition true a loop does not return
(`loop_ne_ok`), and where the invariant holds it raises no error and leaves no memory that its step
does not (`loop_stop_ne`).
-/

namespace Mym

namespace Outcome

variable {ε σ : Type}

/-- `while (p) step`, at most `n` rounds. -/
def loop (p : σ → Bool) (step : σ → Outcome ε σ) : (n : Nat) → σ → Outcome ε σ
  | 0, _ => diverged
  | n + 1, s => if p s then step s >>= loop p step n else ok s

/-- `k` rounds of the loop, each of which finds its condition true. -/
def Rounds (p : σ → Bool) (step : σ → Outcome ε σ) : Nat → σ → σ → Prop
  | 0, s, t => s = t
  | k + 1, s, t => p s = true ∧ ∃ s', step s = ok s' ∧ Rounds p step k s' t

variable {p : σ → Bool} {step : σ → Outcome ε σ}

theorem loop_of_false {s : σ} (h : p s = false) (n : Nat) : loop p step (n + 1) s = ok s := by
  rw [loop, h]
  rfl

theorem loop_of_true {s : σ} (h : p s = true) (n : Nat) :
    loop p step (n + 1) s = step s >>= loop p step n := by
  rw [loop, if_pos h]

theorem loop_of_rounds {k : Nat} {s t : σ} (h : Rounds p step k s t) (n : Nat) :
    loop p step (k + n) s = loop p step n t := by
  induction k generalizing s with
  | zero =>
    have hst : s = t := h
    rw [hst, Nat.zero_add]
  | succ k ih =>
    obtain ⟨hp, s', hs, hrest⟩ := h
    rw [Nat.succ_add, loop_of_true hp, hs, ok_bind, ih hrest]

theorem rounds_add {k m : Nat} {s t u : σ} (h : Rounds p step k s t) (g : Rounds p step m t u) :
    Rounds p step (k + m) s u := by
  induction k generalizing s with
  | zero =>
    have hst : s = t := h
    rw [hst, Nat.zero_add]
    exact g
  | succ k ih =>
    obtain ⟨hp, s', hs, hrest⟩ := h
    rw [Nat.succ_add]
    exact ⟨hp, s', hs, ih hrest⟩

theorem rounds_one {s t : σ} (hp : p s = true) (hs : step s = ok t) : Rounds p step 1 s t :=
  ⟨hp, t, hs, rfl⟩

/-- An ending that is reached stays. -/
theorem loop_eq_of_le {m n : Nat} (hle : m ≤ n) {s : σ} (h : loop p step m s ≠ diverged) :
    loop p step n s = loop p step m s := by
  induction m generalizing n s with
  | zero => exact absurd rfl h
  | succ m ih =>
    obtain ⟨n, rfl⟩ : ∃ n', n = n' + 1 := ⟨n - 1, by omega⟩
    cases hp : p s with
    | false => rw [loop_of_false hp, loop_of_false hp]
    | true =>
      rw [loop_of_true hp] at h
      rw [loop_of_true hp, loop_of_true hp]
      apply bind_congr
      intro t ht
      rw [ht, ok_bind] at h
      exact ih (by omega) h

/-- A loop has one ending. -/
theorem loop_unique {m n : Nat} {s : σ} (hm : loop p step m s ≠ diverged)
    (hn : loop p step n s ≠ diverged) : loop p step m s = loop p step n s := by
  rcases Nat.le_total m n with h | h
  · exact (loop_eq_of_le h hm).symm
  · exact loop_eq_of_le h hn

/-- So has what goes on behind a loop. -/
theorem loop_bind_unique {α : Type} {f : σ → Outcome ε α} {m n : Nat} {s : σ}
    (hm : (loop p step m s >>= f) ≠ diverged) (hn : (loop p step n s >>= f) ≠ diverged) :
    (loop p step m s >>= f) = loop p step n s >>= f := by
  rw [loop_unique]
  · intro h
    rw [h] at hm
    exact hm rfl
  · intro h
    rw [h] at hn
    exact hn rfl

section Invariant

variable {I : σ → Prop} (hstep : ∀ s t, I s → p s = true → step s = ok t → I t)

include hstep

/-- What every round keeps is true after any number of them. -/
theorem rounds_keep {k : Nat} {s t : σ} (h : Rounds p step k s t) (hs : I s) : I t := by
  induction k generalizing s with
  | zero =>
    have hst : s = t := h
    exact hst ▸ hs
  | succ k ih =>
    obtain ⟨hp, s', hs', hrest⟩ := h
    exact ih hrest (hstep s s' hs hp hs')

theorem loop_ne_ok (hp : ∀ s, I s → p s = true) (n : Nat) {s : σ} (hs : I s) (t : σ) :
    loop p step n s ≠ ok t := by
  induction n generalizing s with
  | zero =>
    intro h
    cases h
  | succ n ih =>
    rw [loop_of_true (hp s hs)]
    intro h
    obtain ⟨s', hs', hrest⟩ := bind_eq_ok h
    exact ih (hstep s s' hs (hp s hs) hs') hrest

/-- What the loop ends in has the invariant and makes the condition false. -/
theorem loop_ok_keep {n : Nat} {s t : σ} (h : loop p step n s = ok t) (hs : I s) : I t ∧ p t = false := by
  induction n generalizing s with
  | zero => cases h
  | succ n ih =>
    cases hp : p s with
    | false =>
      rw [loop_of_false hp] at h
      cases h
      exact ⟨hs, hp⟩
    | true =>
      rw [loop_of_true hp] at h
      obtain ⟨s', hs', hrest⟩ := bind_eq_ok h
      exact ih hrest (hstep s s' hs hp hs')

/-- Apart from its fuel, a loop stops only where its step does. -/
theorem loop_stop_ne {b : Stop ε} (hb : b ≠ .diverged)
    (h : ∀ s, I s → p s = true → (step s).stop ≠ some b) (n : Nat) {s : σ} (hs : I s) :
    (loop p step n s).stop ≠ some b := by
  induction n generalizing s with
  | zero =>
    intro hr
    exact hb (stop_diverged.mp hr)
  | succ n ih =>
    cases hp : p s with
    | false =>
      rw [loop_of_false hp]
      intro hr
      cases hr
    | true =>
      rw [loop_of_true hp]
      intro hr
      rcases stop_bind.mp hr with hhere | ⟨t, ht, hrest⟩
      · exact h s hs hp hhere
      · exact ih (hstep s t hs hp ht) hrest

theorem loop_ne_raised {e : ε} (h : ∀ s, I s → p s = true → step s ≠ raised e) (n : Nat) {s : σ}
    (hs : I s) : loop p step n s ≠ raised e := by
  intro hr
  refine loop_stop_ne hstep (by simp) (fun s hs hp hstop => ?_) n hs (stop_eq_raised.mpr hr)
  exact h s hs hp (stop_eq_raised.mp hstop)

theorem loop_ne_outside (h : ∀ s, I s → p s = true → step s ≠ outside) (n : Nat) {s : σ} (hs : I s) :
    loop p step n s ≠ outside := by
  intro hr
  refine loop_stop_ne hstep (by simp) (fun s hs hp hstop => ?_) n hs (stop_eq_outside.mpr hr)
  exact h s hs hp (stop_eq_outside.mp hstop)

end Invariant

end Outcome

end Mym
