import Mym.Lib.Memory

/-!
# Computations that read a table by index

`Indexed` is an outcome with the indices at which a table has been read on the way to it.  A
computation is `Within n` if no index reaches `n`.  Two computations are `Shifted` if the second
reads, one place further on, what the first reads, and ends as the first does: so a computation
over a table compares with the same one over the table with an entry in front.
-/

namespace Mym

structure Indexed (ε α : Type) where
  used : List Nat
  out : Outcome ε α

namespace Indexed

variable {ε α β : Type}

/-- No index, and the given outcome. -/
def lift (x : Outcome ε α) : Indexed ε α := ⟨[], x⟩

protected def bind (x : Indexed ε α) (f : α → Indexed ε β) : Indexed ε β :=
  match x.out with
  | .ok a => ⟨x.used ++ (f a).used, (f a).out⟩
  | .raised e => ⟨x.used, .raised e⟩
  | .outside => ⟨x.used, .outside⟩
  | .undefined => ⟨x.used, .undefined⟩
  | .diverged => ⟨x.used, .diverged⟩

instance : Monad (Indexed ε) where
  pure a := lift (.ok a)
  bind := Indexed.bind

/-- The entry `k` of a table. -/
def get (t : List α) (k : Nat) : Indexed ε α := ⟨[k], readEntry t k⟩

/-- A sequence returns if both its parts do. -/
theorem out_bind (x : Indexed ε α) (f : α → Indexed ε β) :
    (x >>= f).out = x.out >>= fun a => (f a).out := by
  obtain ⟨used, out⟩ := x
  cases out <;> rfl

@[simp] theorem out_lift (x : Outcome ε α) : (lift x).out = x := rfl

@[simp] theorem out_pure (a : α) : (pure a : Indexed ε α).out = .ok a := rfl

@[simp] theorem out_get (t : List α) (k : Nat) : (get (ε := ε) t k).out = readEntry t k := rfl

/-- The indices of a sequence are those of its parts, the second if it is reached. -/
theorem mem_used_bind {x : Indexed ε α} {f : α → Indexed ε β} {k : Nat} :
    k ∈ (x >>= f).used ↔ k ∈ x.used ∨ ∃ a, x.out = .ok a ∧ k ∈ (f a).used := by
  obtain ⟨used, out⟩ := x
  cases out with
  | ok a =>
    show k ∈ used ++ (f a).used ↔ _
    simp
  | _ => exact (or_iff_left fun ⟨a, h, _⟩ => by cases h).symm

/-! ### Staying inside the table -/

def Within (n : Nat) (x : Indexed ε α) : Prop := ∀ k ∈ x.used, k < n

theorem within_lift (n : Nat) (x : Outcome ε α) : Within n (lift x) := fun _ h => by cases h

theorem within_pure (n : Nat) (a : α) : Within n (pure a : Indexed ε α) := within_lift n (.ok a)

theorem within_get (t : List α) {n k : Nat} (h : k < n) : Within n (get (ε := ε) t k) := by
  intro j hj
  rw [List.mem_singleton.mp hj]
  exact h

theorem Within.bind {n : Nat} {x : Indexed ε α} {f : α → Indexed ε β} (hx : Within n x)
    (hf : ∀ a, x.out = .ok a → Within n (f a)) : Within n (x >>= f) := by
  intro k hk
  rcases mem_used_bind.mp hk with hk | ⟨a, ha, hk⟩
  · exact hx k hk
  · exact hf a ha k hk

theorem Within.ite {n : Nat} {c : Prop} [Decidable c] {x y : Indexed ε α} (hx : c → Within n x)
    (hy : ¬c → Within n y) : Within n (if c then x else y) := by
  split
  · next h => exact hx h
  · next h => exact hy h

/-! ### A table with an entry in front -/

structure Shifted (x y : Indexed ε α) : Prop where
  used : y.used = x.used.map (· + 1)
  out : y.out = x.out

theorem shifted_lift (x : Outcome ε α) : Shifted (lift x) (lift x) := ⟨rfl, rfl⟩

theorem shifted_pure (a : α) : Shifted (pure a : Indexed ε α) (pure a) := shifted_lift (.ok a)

theorem shifted_get (t : List α) (a : α) {k k' : Nat} (h : k' = k + 1) :
    Shifted (get (ε := ε) t k) (get (a :: t) k') := by
  subst h
  exact ⟨rfl, rfl⟩

theorem Shifted.ite {c c' : Prop} [Decidable c] [Decidable c'] {x y x' y' : Indexed ε α} (hc : c' ↔ c)
    (hx : Shifted x x') (hy : Shifted y y') :
    Shifted (if c then x else y) (if c' then x' else y') := by
  by_cases h : c
  · rw [if_pos h, if_pos (hc.mpr h)]
    exact hx
  · rw [if_neg h, if_neg (mt hc.mp h)]
    exact hy

theorem Shifted.bind {x y : Indexed ε α} {f g : α → Indexed ε β} (h : Shifted x y)
    (hf : ∀ a, x.out = .ok a → Shifted (f a) (g a)) : Shifted (x >>= f) (y >>= g) := by
  obtain ⟨used, out⟩ := x
  obtain ⟨used', out'⟩ := y
  obtain ⟨hused, hout⟩ := h
  dsimp only at hused hout
  subst hused hout
  cases out' with
  | ok a =>
    refine ⟨?_, (hf a rfl).out⟩
    show used.map (· + 1) ++ (g a).used = (used ++ (f a).used).map (· + 1)
    rw [List.map_append, (hf a rfl).used]
  | _ => exact ⟨rfl, rfl⟩

end Indexed

end Mym
