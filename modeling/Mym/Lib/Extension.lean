import Mym.Lib.Memory
import Mym.Lib.Recursion

/-!
# Memory that goes on

A computation that stays inside its memory does the same when more memory follows: `Stays x y` says
that `x` leaves its memory or ends as `y` does.  It is kept by sequences, loops and recursion, and
each of the reads has it.
-/

namespace Mym

namespace Outcome

variable {ε α β σ : Type}

/-- `x` leaves its memory, or ends as `y` does. -/
def Stays (x y : Outcome ε α) : Prop := x = outside ∨ x = y

theorem Stays.refl (x : Outcome ε α) : Stays x x := Or.inr rfl

theorem Stays.eq {x y : Outcome ε α} (h : Stays x y) (hx : x ≠ outside) : y = x :=
  (h.resolve_left hx).symm

theorem Stays.ok {x y : Outcome ε α} (h : Stays x y) {a : α} (hx : x = .ok a) : y = .ok a :=
  (h.eq fun hout => by cases hx.symm.trans hout).trans hx

theorem Stays.bind {x y : Outcome ε α} {f g : α → Outcome ε β} (h : Stays x y)
    (hf : ∀ a, Stays (f a) (g a)) : Stays (x >>= f) (y >>= g) := by
  rcases h with rfl | rfl
  · exact Or.inl rfl
  · cases x with
    | ok a => exact hf a
    | _ => exact Or.inr rfl

theorem Stays.iter {f g : σ → Outcome ε σ} (h : ∀ s, Stays (f s) (g s)) (n : Nat) (s : σ) :
    Stays (Outcome.iter f n s) (Outcome.iter g n s) := by
  induction n generalizing s with
  | zero => exact Stays.refl _
  | succ n ih => exact (h s).bind fun t => ih t

theorem Stays.forInt {f g : σ → Outcome ε σ} (h : ∀ s, Stays (f s) (g s)) (n : Nat) (s : σ) :
    Stays (Outcome.forInt n f s) (Outcome.forInt n g s) := by
  unfold Outcome.forInt
  split
  · exact Stays.iter h n s
  · exact (Stays.iter h (2 ^ 31) s).bind fun _ => Stays.refl _

theorem Stays.unroll {F G : (σ → Outcome ε α) → σ → Outcome ε α}
    (h : ∀ f g, (∀ c, Stays (f c) (g c)) → ∀ c, Stays (F f c) (G g c)) (n : Nat) (c : σ) :
    Stays (Outcome.unroll F n c) (Outcome.unroll G n c) := by
  induction n generalizing c with
  | zero => exact Stays.refl _
  | succ n ih => exact h _ _ ih c

end Outcome

section Reads

variable {ε : Type} (mem more : Bytes)

theorem readByte_stays (pos : Nat) :
    Outcome.Stays (readByte (ε := ε) mem pos) (readByte (mem ++ more) pos) := by
  cases hb : mem[pos]? with
  | none => exact Or.inl (readByte_eq_outside.mpr (List.getElem?_eq_none_iff.mp hb))
  | some b =>
    have hlt : pos < mem.length := (List.getElem?_eq_some_iff.mp hb).1
    have hmore : (mem ++ more)[pos]? = some b := by rw [List.getElem?_append_left hlt, hb]
    exact Or.inr ((readByte_eq_ok.mpr hb).trans (readByte_eq_ok.mpr hmore).symm)

theorem readBytes_stays (pos n : Nat) :
    Outcome.Stays (readBytes (ε := ε) mem pos n) (readBytes (mem ++ more) pos n) := by
  by_cases h : pos + n ≤ mem.length
  · have hmore : pos + n ≤ (mem ++ more).length := by
      rw [List.length_append]
      omega
    have htake : ((mem ++ more).drop pos).take n = (mem.drop pos).take n := by
      rw [List.drop_append_of_le_length (by omega), List.take_append_of_le_length]
      rw [List.length_drop]
      omega
    refine Or.inr ?_
    rw [readBytes, readBytes, dif_pos h, dif_pos hmore]
    exact congrArg Outcome.ok (Subtype.ext htake.symm)
  · by_cases h0 : n = 0
    · subst h0
      refine Or.inr ?_
      rw [readBytes, dif_neg h, dif_pos rfl, readBytes]
      split
      · exact congrArg Outcome.ok (Subtype.ext rfl)
      · rfl
    · exact Or.inl (by rw [readBytes, dif_neg h, dif_neg h0])

theorem readWord_stays (pos w : Nat) :
    Outcome.Stays (readWord (ε := ε) mem pos w) (readWord (mem ++ more) pos w) :=
  (readBytes_stays mem more pos w).bind fun _ => .refl _

theorem readWords_stays (pos w n : Nat) :
    Outcome.Stays (readWords (ε := ε) mem pos w n) (readWords (mem ++ more) pos w n) :=
  (readBytes_stays mem more pos (w * n)).bind fun _ => .refl _

/-- A string that ends inside the memory. -/
theorem readCStr_stays (pos : Nat) :
    Outcome.Stays (readCStr (ε := ε) mem pos) (readCStr (mem ++ more) pos) := by
  by_cases h : pos + ((mem.drop pos).takeWhile (· ≠ 0)).length < mem.length
  · have hne : ((mem.drop pos).takeWhile (· ≠ 0)).length ≠ (mem.drop pos).length := by
      rw [List.length_drop]
      omega
    have htake : ((mem ++ more).drop pos).takeWhile (· ≠ 0) = (mem.drop pos).takeWhile (· ≠ 0) := by
      rw [List.drop_append_of_le_length (by omega), List.takeWhile_append, if_neg hne]
    have hmore : pos + (((mem ++ more).drop pos).takeWhile (· ≠ 0)).length
        < (mem ++ more).length := by
      rw [htake, List.length_append]
      omega
    refine Or.inr ?_
    unfold readCStr
    dsimp only
    rw [if_pos h, if_pos hmore]
    exact congrArg Outcome.ok (Subtype.ext htake.symm)
  · exact Or.inl (if_neg h)

theorem sameAt_stays (f : UInt8 → UInt8) (cs : Bytes) (pos : Nat) :
    Outcome.Stays (sameAt (ε := ε) f mem cs pos) (sameAt f (mem ++ more) cs pos) := by
  induction cs generalizing pos with
  | nil => exact .refl _
  | cons c cs ih =>
    refine (readByte_stays mem more pos).bind fun b => ?_
    split
    · exact ih (pos + 1)
    · exact .refl _

end Reads

end Mym
