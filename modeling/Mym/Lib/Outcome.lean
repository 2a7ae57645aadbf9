import Mathlib.Data.List.Basic
import Mathlib.Tactic.Ring

/-!
# Outcomes of a C computation

A C function that works on raw memory can end in more ways than with a value.
`Outcome ε α` lists them: it returns (`ok`), it raises an error that a `catch`
higher up may see (`raised`), it reads or writes outside the memory it was given
(`outside`), it does something else the language leaves undefined
(`undefined`), or it is cut off by the fuel a definition by recursion needs
(`diverged`).  Only the first is a success; `bind` stops at any of the others.

`stop` is the ending alone: a sequence stops where its first part does, or else
where its second does (`stop_bind`), and a repetition in the first of its steps
that stops (`iter_stop`).

`iter` repeats a step a given number of times, and `forInt` is the loop
`for (int i = 0; i < n; i++)` whose bound `n` is a 64-bit size: its counter is
a 32-bit `int`, so the increment past `2 ^ 31 - 1` is undefined.
-/

namespace Mym

/-- How a computation over raw memory ends. -/
inductive Outcome (ε α : Type) where
  | ok (a : α)
  | raised (e : ε)
  | outside
  | undefined
  | diverged
  deriving DecidableEq, Repr

namespace Outcome

variable {ε α β σ : Type}

protected def bind : Outcome ε α → (α → Outcome ε β) → Outcome ε β
  | ok a, f => f a
  | raised e, _ => raised e
  | outside, _ => outside
  | undefined, _ => undefined
  | diverged, _ => diverged

instance : Monad (Outcome ε) where
  pure := ok
  bind := Outcome.bind

@[simp] theorem pure_eq (a : α) : (pure a : Outcome ε α) = ok a := rfl

@[simp] theorem ok_bind (a : α) (f : α → Outcome ε β) : (ok a >>= f) = f a := rfl

@[simp] theorem raised_bind (e : ε) (f : α → Outcome ε β) : (raised e >>= f) = raised e := rfl

@[simp] theorem outside_bind (f : α → Outcome ε β) : (outside >>= f) = outside := rfl

@[simp] theorem undefined_bind (f : α → Outcome ε β) : (undefined >>= f) = undefined := rfl

@[simp] theorem diverged_bind (f : α → Outcome ε β) : (diverged >>= f) = diverged := rfl

theorem bind_assoc {γ : Type} (x : Outcome ε α) (f : α → Outcome ε β) (g : β → Outcome ε γ) :
    ((x >>= f) >>= g) = x >>= fun a => f a >>= g := by
  cases x <;> rfl

@[simp] theorem bind_ok (x : Outcome ε α) : (x >>= ok) = x := by
  cases x <;> rfl

theorem bind_eq_ok {x : Outcome ε α} {f : α → Outcome ε β} {b : β} (h : (x >>= f) = ok b) :
    ∃ a, x = ok a ∧ f a = ok b := by
  cases x with
  | ok a => exact ⟨a, rfl, h⟩
  | _ => cases h

/-- If the first part is kept and the rest agrees on what it returns, the whole agrees. -/
theorem bind_congr {x : Outcome ε α} {f g : α → Outcome ε β} (h : ∀ a, x = ok a → f a = g a) :
    (x >>= f) = (x >>= g) := by
  cases x with
  | ok a => exact h a rfl
  | _ => rfl

/-- A sequence raises no error that neither of its parts raises. -/
theorem bind_ne_raised {x : Outcome ε α} {f : α → Outcome ε β} {e : ε} (hx : x ≠ raised e)
    (hf : ∀ a, x = ok a → f a ≠ raised e) : (x >>= f) ≠ raised e := by
  cases x with
  | ok a => exact hf a rfl
  | raised e' => exact fun h => hx (by cases h; rfl)
  | _ => exact fun h => by cases h

/-- A sequence stays inside the memory where its parts do. -/
theorem bind_ne_outside {x : Outcome ε α} {f : α → Outcome ε β} (hx : x ≠ outside)
    (hf : ∀ a, x = ok a → f a ≠ outside) : (x >>= f) ≠ outside := by
  cases x with
  | ok a => exact hf a rfl
  | outside => exact fun _ => hx rfl
  | _ => exact fun h => by cases h

/-- The errors of a computation whose value is only wrapped. -/
theorem bind_ok_eq_raised {x : Outcome ε α} {f : α → β} {e : ε} :
    (x >>= fun a => ok (f a)) = raised e ↔ x = raised e := by
  constructor
  · intro h
    cases x with
    | raised e' =>
      cases h
      rfl
    | _ => cases h
  · intro h
    rw [h, raised_bind]

/-! ### Repetition -/

/-- `step` done `n` times. -/
def iter (step : σ → Outcome ε σ) : Nat → σ → Outcome ε σ
  | 0, s => ok s
  | n + 1, s => step s >>= iter step n

@[simp] theorem iter_zero (step : σ → Outcome ε σ) (s : σ) : iter step 0 s = ok s := rfl

theorem iter_succ (step : σ → Outcome ε σ) (n : Nat) (s : σ) :
    iter step (n + 1) s = step s >>= iter step n := rfl

theorem iter_add (step : σ → Outcome ε σ) (m n : Nat) (s : σ) :
    iter step (m + n) s = iter step m s >>= iter step n := by
  induction m generalizing s with
  | zero => rw [Nat.zero_add]; rfl
  | succ m ih =>
    rw [Nat.succ_add, iter_succ, iter_succ, bind_assoc]
    exact bind_congr fun a _ => ih a

theorem iter_succ_last (step : σ → Outcome ε σ) (n : Nat) (s : σ) :
    iter step (n + 1) s = iter step n s >>= step := by
  rw [iter_add]
  apply bind_congr
  intro a _
  rw [iter_succ]
  exact bind_ok (step a)

/-- Repeating a repetition is one longer repetition. -/
theorem iter_iter (step : σ → Outcome ε σ) (m n : Nat) (s : σ) :
    iter (iter step n) m s = iter step (m * n) s := by
  induction m generalizing s with
  | zero => rw [Nat.zero_mul]; rfl
  | succ m ih =>
    rw [iter_succ, Nat.succ_mul, Nat.add_comm (m * n) n, iter_add]
    exact bind_congr fun a _ => ih a

@[simp] theorem iter_one (step : σ → Outcome ε σ) (s : σ) : iter step 1 s = step s := by
  rw [iter_succ]
  exact bind_ok (step s)

/-- Steps that return or raise an error, and keep what is true of the number of steps done. -/
theorem iter_cases {step : σ → Outcome ε σ} {I : Nat → σ → Prop} {R : Prop} {n : Nat}
    (h : ∀ k < n, ∀ s, I k s →
      (∃ t, step s = ok t ∧ I (k + 1) t) ∨ ∃ e, step s = raised e ∧ R)
    {s : σ} (hs : I 0 s) :
    (∃ t, iter step n s = ok t ∧ I n t) ∨ ∃ e, iter step n s = raised e ∧ R := by
  induction n with
  | zero => exact Or.inl ⟨s, rfl, hs⟩
  | succ n ih =>
    rw [iter_succ_last]
    rcases ih fun k hk => h k (Nat.lt_succ_of_lt hk) with ⟨t, ht, hI⟩ | ⟨e, he, hR⟩
    · rw [ht]
      exact h n (Nat.lt_succ_self n) t hI
    · rw [he]
      exact Or.inr ⟨e, rfl, hR⟩

/-! ### The `int` loop -/

/-- `for (int i = 0; i < n; i++)` around `step`, for a 64-bit bound `n`. -/
def forInt (n : Nat) (step : σ → Outcome ε σ) (s : σ) : Outcome ε σ :=
  if n < 2 ^ 31 then iter step n s else iter step (2 ^ 31) s >>= fun _ => undefined

theorem forInt_of_lt {n : Nat} (h : n < 2 ^ 31) (step : σ → Outcome ε σ) (s : σ) :
    forInt n step s = iter step n s := if_pos h

/-- The counter of a longer loop overflows. -/
theorem forInt_of_ge {n : Nat} (h : 2 ^ 31 ≤ n) (step : σ → Outcome ε σ) (s : σ) :
    forInt n step s = iter step (2 ^ 31) s >>= fun _ => undefined := if_neg (Nat.not_lt.mpr h)

/-- `for (int i = a; i < n; i++)` around `step`. -/
def forIntFrom (a n : Nat) (step : σ → Outcome ε σ) (s : σ) : Outcome ε σ :=
  if n < 2 ^ 31 then iter step (n - a) s else iter step (2 ^ 31 - a) s >>= fun _ => undefined

theorem forIntFrom_of_lt {n : Nat} (a : Nat) (h : n < 2 ^ 31) (step : σ → Outcome ε σ) (s : σ) :
    forIntFrom a n step s = iter step (n - a) s := if_pos h

/-! ### Endings without a value -/

/-- How a computation ends that returns nothing. -/
inductive Stop (ε : Type) where
  | raised (e : ε)
  | outside
  | undefined
  | diverged
  deriving DecidableEq, Repr

/-- The ending of a computation that returns nothing, and `none` for one that returns. -/
def stop : Outcome ε α → Option (Stop ε)
  | ok _ => none
  | raised e => some (.raised e)
  | outside => some .outside
  | undefined => some .undefined
  | diverged => some .diverged

@[simp] theorem stop_ok (a : α) : (ok a : Outcome ε α).stop = none := rfl

@[simp] theorem stop_raised {e : ε} {b : Stop ε} :
    (raised e : Outcome ε α).stop = some b ↔ b = .raised e :=
  Option.some_inj.trans eq_comm

@[simp] theorem stop_outside {b : Stop ε} :
    (outside : Outcome ε α).stop = some b ↔ b = .outside :=
  Option.some_inj.trans eq_comm

@[simp] theorem stop_undefined {b : Stop ε} :
    (undefined : Outcome ε α).stop = some b ↔ b = .undefined :=
  Option.some_inj.trans eq_comm

@[simp] theorem stop_diverged {b : Stop ε} :
    (diverged : Outcome ε α).stop = some b ↔ b = .diverged :=
  Option.some_inj.trans eq_comm

theorem stop_eq_none {x : Outcome ε α} : x.stop = none ↔ ∃ a, x = ok a := by
  cases x <;> simp [stop]

theorem stop_eq_raised {x : Outcome ε α} {e : ε} : x.stop = some (.raised e) ↔ x = raised e := by
  cases x <;> simp [stop]

theorem stop_eq_outside {x : Outcome ε α} : x.stop = some .outside ↔ x = outside := by
  cases x <;> simp [stop]

theorem stop_eq_diverged {x : Outcome ε α} : x.stop = some .diverged ↔ x = diverged := by
  cases x <;> simp [stop]

/-- A sequence stops where its first part does, or where the second does after the first
has returned. -/
theorem stop_bind {x : Outcome ε α} {f : α → Outcome ε β} {b : Stop ε} :
    (x >>= f).stop = some b ↔ x.stop = some b ∨ ∃ a, x = ok a ∧ (f a).stop = some b := by
  cases x with
  | ok a => simp
  | _ => simp

/-- A repetition stops in one of its steps, after steps that all returned. -/
theorem iter_stop {step : σ → Outcome ε σ} {n : Nat} {s : σ} {b : Stop ε} :
    (iter step n s).stop = some b ↔
      ∃ k < n, ∃ t, iter step k s = ok t ∧ (step t).stop = some b := by
  induction n with
  | zero => simp
  | succ n ih =>
    rw [iter_succ_last, stop_bind, ih]
    refine ⟨?_, ?_⟩
    · intro hor
      rcases hor with ⟨k, hk, t, h⟩ | ⟨t, h⟩
      · exact ⟨k, Nat.lt_succ_of_lt hk, t, h⟩
      · exact ⟨n, Nat.lt_succ_self n, t, h⟩
    · intro hw
      obtain ⟨k, hk, t, h⟩ := hw
      rcases Nat.lt_succ_iff_lt_or_eq.mp hk with hlt | rfl
      · exact Or.inl ⟨k, hlt, t, h⟩
      · exact Or.inr ⟨t, h⟩

/-! ### Computations that end alike -/

/-- Both return, and `Q` relates what they return, or both stop in the same way. -/
def Alike (Q : α → β → Prop) (x : Outcome ε α) (y : Outcome ε β) : Prop :=
  (∃ a b, x = ok a ∧ y = ok b ∧ Q a b) ∨ ∃ c, x.stop = some c ∧ y.stop = some c

theorem alike_ok {Q : α → β → Prop} {a : α} {b : β} (h : Q a b) :
    Alike Q (ok a : Outcome ε α) (ok b) := Or.inl ⟨a, b, rfl, rfl, h⟩

theorem alike_refl (x : Outcome ε α) : Alike Eq x x := by
  cases hx : x.stop with
  | none =>
    obtain ⟨a, rfl⟩ := stop_eq_none.mp hx
    exact alike_ok rfl
  | some c => exact Or.inr ⟨c, hx, hx⟩

theorem Alike.stop_eq {Q : α → β → Prop} {x : Outcome ε α} {y : Outcome ε β} (h : Alike Q x y) :
    x.stop = y.stop := by
  rcases h with ⟨a, b, rfl, rfl, -⟩ | ⟨c, hx, hy⟩
  · rfl
  · rw [hx, hy]

theorem Alike.of_ok {Q : α → β → Prop} {x : Outcome ε α} {y : Outcome ε β} (h : Alike Q x y) {a : α}
    (ha : x = ok a) : ∃ b, y = ok b ∧ Q a b := by
  rcases h with ⟨a', b, hx, hy, hq⟩ | ⟨c, hx, -⟩
  · cases ha.symm.trans hx
    exact ⟨b, hy, hq⟩
  · rw [ha] at hx
    cases hx

theorem Alike.bind {α' β' : Type} {Q : α → β → Prop} {Q' : α' → β' → Prop} {x : Outcome ε α}
    {y : Outcome ε β} {f : α → Outcome ε α'} {g : β → Outcome ε β'} (h : Alike Q x y)
    (hfg : ∀ a b, x = ok a → y = ok b → Q a b → Alike Q' (f a) (g b)) :
    Alike Q' (x >>= f) (y >>= g) := by
  rcases h with ⟨a, b, rfl, rfl, hq⟩ | ⟨c, hx, hy⟩
  · exact hfg a b rfl rfl hq
  · exact Or.inr ⟨c, stop_bind.mpr (Or.inl hx), stop_bind.mpr (Or.inl hy)⟩

/-- Steps that end alike, repeated. -/
theorem iter_alike {τ : Type} {step : σ → Outcome ε σ} {step' : τ → Outcome ε τ}
    {R : Nat → σ → τ → Prop} {n : Nat}
    (h : ∀ k < n, ∀ s t, R k s t → Alike (R (k + 1)) (step s) (step' t)) {s : σ} {t : τ}
    (hst : R 0 s t) : Alike (R n) (iter step n s) (iter step' n t) := by
  induction n with
  | zero => exact alike_ok hst
  | succ n ih =>
    rw [iter_succ_last, iter_succ_last]
    exact (ih fun k hk => h k (Nat.lt_succ_of_lt hk)).bind fun a b _ _ hab =>
      h n (Nat.lt_succ_self n) a b hab

/-! ### One computation that refuses more than another -/

/-- `y` ends as `x` does, but raises `e` where `P` holds. -/
def AlikeUnless (P : Prop) (e : ε) (Q : α → β → Prop) (x : Outcome ε α) (y : Outcome ε β) : Prop :=
  Alike (fun a b => Q a b ∧ ¬P) x y ∨ P ∧ y = raised e

theorem Alike.unless {Q : α → β → Prop} {x : Outcome ε α} {y : Outcome ε β} (h : Alike Q x y)
    {P : Prop} (hP : ¬P) (e : ε) : AlikeUnless P e Q x y := by
  rcases h with ⟨a, b, hx, hy, hq⟩ | hstop
  · exact Or.inl (Or.inl ⟨a, b, hx, hy, hq, hP⟩)
  · exact Or.inl (Or.inr hstop)

theorem AlikeUnless.mono {P : Prop} {e : ε} {Q Q' : α → β → Prop} {x : Outcome ε α}
    {y : Outcome ε β} (h : AlikeUnless P e Q x y) (hQ : ∀ a b, Q a b → Q' a b) : AlikeUnless P e Q' x y := by
  rcases h with (⟨a, b, hx, hy, hq, hP⟩ | hstop) | hraised
  · exact Or.inl (Or.inl ⟨a, b, hx, hy, hQ a b hq, hP⟩)
  · exact Or.inl (Or.inr hstop)
  · exact Or.inr hraised

theorem AlikeUnless.bind {α' β' : Type} {P P' : Prop} {e : ε} {Q : α → β → Prop}
    {Q' : α' → β' → Prop} {x : Outcome ε α} {y : Outcome ε β} {f : α → Outcome ε α'}
    {g : β → Outcome ε β'} (h : AlikeUnless P e Q x y)
    (hfg : ∀ a b, Q a b → AlikeUnless P' e Q' (f a) (g b)) :
    AlikeUnless (P ∨ P') e Q' (x >>= f) (y >>= g) := by
  rcases h with (⟨a, b, rfl, rfl, hq, hP⟩ | ⟨c, hx, hy⟩) | ⟨hP, rfl⟩
  · rcases hfg a b hq with (⟨a', b', hf, hg, hq', hP'⟩ | hstop) | ⟨hP', hg⟩
    · exact Or.inl (Or.inl ⟨a', b', hf, hg, hq', fun h => h.elim hP hP'⟩)
    · exact Or.inl (Or.inr hstop)
    · exact Or.inr ⟨Or.inr hP', hg⟩
  · exact Or.inl (Or.inr ⟨c, stop_bind.mpr (Or.inl hx), stop_bind.mpr (Or.inl hy)⟩)
  · exact Or.inr ⟨Or.inl hP, rfl⟩

/-- Each of the two stands for a computation that ends alike. -/
theorem AlikeUnless.through {α' β' : Type} {P : Prop} {e : ε} {Q : α → β → Prop} {R : α' → α → Prop}
    {S : β' → β → Prop} {x : Outcome ε α} {y : Outcome ε β} {x' : Outcome ε α'} {y' : Outcome ε β'}
    (h : AlikeUnless P e Q x y) (hx : Alike R x' x) (hy : Alike S y' y) :
    AlikeUnless P e (fun a' b' => ∃ a b, R a' a ∧ S b' b ∧ Q a b) x' y' := by
  rcases h with (⟨a, b, rfl, rfl, hq, hP⟩ | ⟨c, hxc, hyc⟩) | ⟨hP, rfl⟩
  · obtain ⟨a', b', rfl, rfl, hR, hS⟩ : ∃ a' b', x' = ok a' ∧ y' = ok b' ∧ R a' a ∧ S b' b := by
      rcases hx with ⟨a', a'', hx', ha, hR⟩ | ⟨c, -, hc⟩
      · rcases hy with ⟨b', b'', hy', hb, hS⟩ | ⟨c, -, hc⟩
        · cases ha
          cases hb
          exact ⟨a', b', hx', hy', hR, hS⟩
        · cases hc
      · cases hc
    exact Or.inl (Or.inl ⟨a', b', rfl, rfl, ⟨a, b, hR, hS, hq⟩, hP⟩)
  · exact Or.inl (Or.inr ⟨c, hx.stop_eq.trans hxc, hy.stop_eq.trans hyc⟩)
  · exact Or.inr ⟨hP, stop_eq_raised.mp (hy.stop_eq.trans rfl)⟩

end Outcome

end Mym
