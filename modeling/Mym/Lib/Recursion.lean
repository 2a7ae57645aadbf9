import Mathlib.Data.Fintype.Card
import Mym.Lib.Outcome

/-!
# Recursion counted down

A recursive function whose depth the code does not bound is `unroll F`: `F` is its
body, taking the function to call, and `unroll F n` cuts the recursion off at depth
`n` with `diverged`.

A monotone body (`Mono`) keeps every ending that a smaller depth has reached
(`unroll_eq_of_le`).  If moreover the body calls the function at finitely many
points only, there is nothing to gain from a depth above their number
(`unroll_stable`): as long as a further level helps, it makes one more of these
points end, and after a level that helps none all levels are alike.
-/

namespace Mym

namespace Outcome

variable {ε α β σ ι : Type}

/-! ### Approximation -/

/-- `x` is `y`, or has been cut off. -/
def Approx (x y : Outcome ε α) : Prop := x = diverged ∨ x = y

theorem Approx.refl (x : Outcome ε α) : Approx x x := Or.inr rfl

theorem Approx.eq {x y : Outcome ε α} (h : Approx x y) (hx : x ≠ diverged) : x = y :=
  h.resolve_left hx

theorem Approx.bind {x y : Outcome ε α} {f g : α → Outcome ε β} (h : Approx x y)
    (hf : ∀ a, Approx (f a) (g a)) : Approx (x >>= f) (y >>= g) := by
  rcases h with rfl | rfl
  · exact Or.inl rfl
  · cases x with
    | ok a => exact hf a
    | _ => exact Or.inr rfl

theorem Approx.iter {f g : σ → Outcome ε σ} (h : ∀ s, Approx (f s) (g s)) (n : Nat) (s : σ) :
    Approx (Outcome.iter f n s) (Outcome.iter g n s) := by
  induction n generalizing s with
  | zero => exact Approx.refl _
  | succ n ih => exact (h s).bind fun t => ih t

theorem Approx.forInt {f g : σ → Outcome ε σ} (h : ∀ s, Approx (f s) (g s)) (n : Nat) (s : σ) :
    Approx (Outcome.forInt n f s) (Outcome.forInt n g s) := by
  unfold Outcome.forInt
  split
  · exact Approx.iter h n s
  · exact (Approx.iter h (2 ^ 31) s).bind fun _ => Approx.refl _

/-! ### Unrolling -/

/-- The function with body `F`, at most `n` calls deep. -/
def unroll (F : (σ → Outcome ε α) → σ → Outcome ε α) : Nat → σ → Outcome ε α
  | 0 => fun _ => diverged
  | n + 1 => F (unroll F n)

/-- The body keeps what the calls inside it return. -/
def Mono (F : (σ → Outcome ε α) → σ → Outcome ε α) : Prop :=
  ∀ f g, (∀ c, Approx (f c) (g c)) → ∀ c, Approx (F f c) (F g c)

section

variable {F : (σ → Outcome ε α) → σ → Outcome ε α}

theorem unroll_approx (hF : Mono F) (n : Nat) (c : σ) :
    Approx (unroll F n c) (unroll F (n + 1) c) := by
  induction n generalizing c with
  | zero => exact Or.inl rfl
  | succ n ih => exact hF _ _ ih c

/-- An ending that is reached stays. -/
theorem unroll_eq_of_le (hF : Mono F) {m n : Nat} (hle : m ≤ n) {c : σ}
    (h : unroll F m c ≠ diverged) : unroll F n c = unroll F m c := by
  induction n, hle using Nat.le_induction with
  | base => rfl
  | succ n hle ih =>
    rw [← ih]
    exact ((unroll_approx hF n c).eq (by rw [ih]; exact h)).symm

/-- Two levels that agree at the points `F` calls agree with all that follow. -/
theorem unroll_of_agree {pt : ι → σ}
    (hcalls : ∀ f g, (∀ i, f (pt i) = g (pt i)) → F f = F g) {m : Nat}
    (hm : ∀ i, unroll F m (pt i) = unroll F (m + 1) (pt i)) {n : Nat} (hle : m + 1 ≤ n) :
    unroll F n = unroll F (m + 1) := by
  induction n, hle using Nat.le_induction with
  | base => rfl
  | succ n hle ih =>
    have hnext : unroll F (m + 1) = unroll F (m + 2) := hcalls _ _ hm
    show F (unroll F n) = unroll F (m + 1)
    rw [ih]
    exact hnext.symm

/-- **Depth beyond the number of call points is never needed.** -/
theorem unroll_stable (hF : Mono F) {L : Nat} {pt : Fin L → σ}
    (hcalls : ∀ f g, (∀ i, f (pt i) = g (pt i)) → F f = F g) {n : Nat} (hn : L + 1 ≤ n) :
    unroll F n = unroll F (L + 1) := by
  classical
  -- the points that end within `k` levels
  let D : Nat → Finset (Fin L) := fun k => Finset.univ.filter fun i => unroll F k (pt i) ≠ diverged
  have hsub : ∀ k, D k ⊆ D (k + 1) := by
    intro k i hi
    have hi : unroll F k (pt i) ≠ diverged := (Finset.mem_filter.mp hi).2
    refine Finset.mem_filter.mpr ⟨Finset.mem_univ i, ?_⟩
    rw [← (unroll_approx hF k (pt i)).eq hi]
    exact hi
  have hagree : ∀ k, D k = D (k + 1) → ∀ i, unroll F k (pt i) = unroll F (k + 1) (pt i) := by
    intro k hk i
    rcases unroll_approx hF k (pt i) with h | h
    · have hi : i ∉ D (k + 1) := by
        rw [← hk]
        exact fun hi => (Finset.mem_filter.mp hi).2 h
      by_contra hne
      exact hi (Finset.mem_filter.mpr ⟨Finset.mem_univ i, fun hd => hne (h.trans hd.symm)⟩)
    · exact h
  have hgrow : ∀ k, (∀ j < k, D j ≠ D (j + 1)) → k ≤ (D k).card := by
    intro k hk
    induction k with
    | zero => exact Nat.zero_le _
    | succ k ih =>
      have hss : D k ⊂ D (k + 1) :=
        Finset.ssubset_iff_subset_ne.mpr ⟨hsub k, hk k (Nat.lt_succ_self k)⟩
      have := Finset.card_lt_card hss
      have := ih fun j hj => hk j (Nat.lt_succ_of_lt hj)
      omega
  have hex : ∃ m < L + 1, D m = D (m + 1) := by
    by_contra hno
    have hle := hgrow (L + 1) fun j hj he => hno ⟨j, hj, he⟩
    have hcard := Finset.card_le_univ (D (L + 1))
    rw [Fintype.card_fin] at hcard
    omega
  obtain ⟨m, hm, hD⟩ := hex
  rw [unroll_of_agree hcalls (hagree m hD) (by omega : m + 1 ≤ n),
    unroll_of_agree hcalls (hagree m hD) (by omega : m + 1 ≤ L + 1)]

end

end Outcome

end Mym
