import Mathlib.Data.List.Chain
import Mathlib.Data.List.Count

/-!
# Marked symbols

Some symbols are special, and a mark in front of one says that it stands for itself.  In a
`Guarded` list every special symbol has its mark, and `unmark` leaves these marks out.
Guarded lists can be put together, and their marks be left out part by part.
-/

namespace Mym

variable {α : Type} (mark : α) (special : α → Bool)

/-- A special symbol stands behind a mark only. -/
def Behind (a b : α) : Prop := special b = true → a = mark

/-- Every special symbol has a mark in front of it, the first symbol of the list included. -/
def Guarded (l : List α) : Prop := (∀ a ∈ l.head?, special a = false) ∧ l.IsChain (Behind mark special)

instance [DecidableEq α] : DecidableRel (Behind mark special) := fun a b =>
  inferInstanceAs (Decidable (special b = true → a = mark))

instance [DecidableEq α] (l : List α) : Decidable (Guarded mark special l) :=
  inferInstanceAs (Decidable (_ ∧ _))

/-- The marks in front of special symbols are left out. -/
def unmark [DecidableEq α] : List α → List α
  | [] => []
  | a :: l => if a = mark ∧ l.head?.any special = true then unmark l else a :: unmark l

variable {mark : α} {special : α → Bool}

theorem not_special_of_any {l : List α} (h : l.any special = false) : ∀ a ∈ l, special a = false :=
  fun a ha => Bool.eq_false_iff.mpr (List.any_eq_false.mp h a ha)

theorem guarded_of_none {l : List α} (h : ∀ a ∈ l, special a = false) : Guarded mark special l := by
  refine ⟨fun a ha => h a (List.mem_of_mem_head? ha), ?_⟩
  induction l with
  | nil => exact .nil
  | cons a l ih =>
    have ih := ih fun b hb => h b (List.mem_cons_of_mem a hb)
    cases l with
    | nil => exact .singleton a
    | cons b l =>
      refine List.isChain_cons_cons.mpr ⟨fun hb => ?_, ih⟩
      rw [h b (by simp)] at hb
      cases hb

theorem Guarded.append {a b : List α} (ha : Guarded mark special a) (hb : Guarded mark special b) :
    Guarded mark special (a ++ b) := by
  refine ⟨fun x hx => ?_, List.isChain_append.mpr ⟨ha.2, hb.2, fun x _ y hy hs => ?_⟩⟩
  · cases a with
    | nil => exact hb.1 x hx
    | cons c a => exact ha.1 x hx
  · rw [hb.1 y hy] at hs
    cases hs

/-- One more symbol may be special behind a mark only. -/
theorem guarded_snoc {l : List α} {a : α} :
    Guarded mark special (l ++ [a]) ↔
      Guarded mark special l ∧ (special a = true → l.getLast? = some mark) := by
  unfold Guarded
  rw [List.isChain_append]
  cases l with
  | nil => simp
  | cons b l =>
    rw [List.getLast?_cons, List.cons_append, List.head?_cons, List.head?_cons]
    simp only [Behind, List.head?_cons, Option.mem_some, forall_eq', List.IsChain.singleton,
      true_and, Option.some.injEq, and_assoc]

/-- In a list that is not guarded there is a first symbol that has no mark. -/
theorem exists_of_not_guarded {l : List α} (h : ¬Guarded mark special l) :
    ∃ pre a post, l = pre ++ a :: post ∧ Guarded mark special pre ∧ special a = true ∧
      pre.getLast? ≠ some mark := by
  induction l using List.reverseRecOn with
  | nil => exact absurd (guarded_of_none fun a ha => by cases ha) h
  | append_singleton l b ih =>
    by_cases hl : Guarded mark special l
    · rw [guarded_snoc, and_iff_right hl, Classical.not_imp] at h
      exact ⟨l, b, [], rfl, hl, h.1, h.2⟩
    · obtain ⟨pre, a, post, rfl, hrest⟩ := ih hl
      exact ⟨pre, a, post ++ [b], by rw [List.append_assoc]; rfl, hrest⟩

/-- Every special symbol has its mark at the place before. -/
theorem guarded_iff_getElem? {l : List α} :
    Guarded mark special l ↔
      ∀ i a, l[i]? = some a → special a = true → 0 < i ∧ l[i - 1]? = some mark := by
  induction l using List.reverseRecOn with
  | nil =>
    refine iff_of_true (guarded_of_none fun a ha => by cases ha) ?_
    intro i a ha
    cases ha
  | append_singleton l b ih =>
    rw [guarded_snoc, ih]
    refine ⟨?_, ?_⟩
    · rintro ⟨hl, hb⟩ i a ha hs
      by_cases hi : i < l.length
      · rw [List.getElem?_append_left hi] at ha
        obtain ⟨hpos, hmark⟩ := hl i a ha hs
        exact ⟨hpos, by rwa [List.getElem?_append_left (by omega)]⟩
      · have hlt : i < (l ++ [b]).length := (List.getElem?_eq_some_iff.mp ha).1
        rw [List.length_append, List.length_singleton] at hlt
        have hi : i = l.length := by
          omega
        subst hi
        rw [List.getElem?_concat_length] at ha
        cases ha
        have hlast := hb hs
        rw [List.getLast?_eq_getElem?] at hlast
        have hpos : 0 < l.length := by
          cases l with
          | nil => cases hlast
          | cons c l => exact Nat.succ_pos _
        exact ⟨hpos, by rwa [List.getElem?_append_left (by omega)]⟩
    · intro h
      refine ⟨?_, ?_⟩
      · intro i a ha hs
        have hi : i < l.length := (List.getElem?_eq_some_iff.mp ha).1
        obtain ⟨hpos, hmark⟩ := h i a (by rwa [List.getElem?_append_left hi]) hs
        exact ⟨hpos, by rwa [List.getElem?_append_left (by omega)] at hmark⟩
      · intro hs
        obtain ⟨hpos, hmark⟩ := h l.length b List.getElem?_concat_length hs
        rwa [List.getElem?_append_left (by omega), ← List.getLast?_eq_getElem?] at hmark

variable [DecidableEq α]

theorem unmark_singleton (a : α) : unmark mark special [a] = [a] := by
  rw [unmark, if_neg fun h => by cases h.2]
  rfl

theorem unmark_cons_cons (a b : α) (l : List α) :
    unmark mark special (a :: b :: l) = if a = mark ∧ special b = true then
      unmark mark special (b :: l) else a :: unmark mark special (b :: l) := rfl

theorem unmark_mark {a : α} (h : special a = true) (l : List α) :
    unmark mark special (mark :: a :: l) = unmark mark special (a :: l) := by
  rw [unmark_cons_cons, if_pos ⟨rfl, h⟩]

theorem unmark_cons (a : α) {b : α} (h : ¬special b = true) (l : List α) :
    unmark mark special (a :: b :: l) = a :: unmark mark special (b :: l) := by
  rw [unmark_cons_cons, if_neg fun hany => h hany.2]

theorem unmark_sublist (l : List α) : (unmark mark special l).Sublist l := by
  induction l with
  | nil => exact .slnil
  | cons a l ih =>
    rw [unmark]
    split
    · exact ih.cons a
    · exact ih.cons_cons a

theorem unmark_ne_nil {l : List α} (h : l ≠ []) : unmark mark special l ≠ [] := by
  induction l with
  | nil => exact absurd rfl h
  | cons a l ih =>
    rw [unmark]
    split
    · next hmark =>
      apply ih
      rintro rfl
      cases hmark.2
    · exact List.cons_ne_nil _ _

theorem unmark_append (a : List α) {b : List α} (hb : ∀ x ∈ b.head?, special x = false) :
    unmark mark special (a ++ b) = unmark mark special a ++ unmark mark special b := by
  induction a with
  | nil => rfl
  | cons x a ih =>
    have hhead : (a ++ b).head?.any special = a.head?.any special := by
      cases a with
      | nil =>
        cases b with
        | nil => rfl
        | cons y b => exact hb y rfl
      | cons y a => rfl
    rw [List.cons_append, unmark, unmark, hhead, ih]
    split
    · rfl
    · rfl

theorem unmark_snoc (l : List α) {a : α} (h : special a = false) :
    unmark mark special (l ++ [a]) = unmark mark special l ++ [a] := by
  rw [unmark_append l (by simpa using h), unmark_singleton]

/-- A mark goes away when the special symbol behind it comes. -/
theorem unmark_snoc_mark (hmark : special mark = false) (l : List α) {a : α}
    (h : special a = true) :
    unmark mark special (l ++ [mark] ++ [a]) = unmark mark special l ++ [a] := by
  rw [List.append_assoc, List.singleton_append, unmark_append l (by simpa using hmark),
    unmark_mark h, unmark_singleton]

theorem unmark_append_of_last {a : List α} (ha : a.getLast? ≠ some mark) (b : List α) :
    unmark mark special (a ++ b) = unmark mark special a ++ unmark mark special b := by
  induction a with
  | nil => rfl
  | cons x a ih =>
    cases a with
    | nil =>
      have hx : ¬(x = mark ∧ b.head?.any special = true) := fun h => ha (congrArg some h.1)
      rw [List.singleton_append, unmark, if_neg hx, unmark_singleton]
      rfl
    | cons y a =>
      have ih := ih (by rwa [List.getLast?_cons_cons] at ha)
      rw [List.cons_append] at ih
      rw [List.cons_append, List.cons_append, unmark_cons_cons, unmark_cons_cons, ih]
      split
      · rfl
      · rfl

variable (mark special) in
/-- Whatever becomes of the first part, the second is unmarked on its own. -/
theorem exists_unmark_append (a b : List α) :
    ∃ x, unmark mark special (a ++ b) = x ++ unmark mark special b := by
  induction a with
  | nil => exact ⟨[], rfl⟩
  | cons c a ih =>
    obtain ⟨x, hx⟩ := ih
    rw [List.cons_append, unmark, hx]
    split
    · exact ⟨x, rfl⟩
    · exact ⟨c :: x, rfl⟩

theorem unmark_of_none {l : List α} (h : ∀ a ∈ l, special a = false) : unmark mark special l = l := by
  induction l with
  | nil => rfl
  | cons a l ih =>
    have hno : ¬(a = mark ∧ l.head?.any special = true) := by
      intro hw
      obtain ⟨-, hany⟩ := hw
      cases l with
      | nil => cases hany
      | cons b l =>
        rw [List.head?_cons, Option.any_some, h b (by simp)] at hany
        cases hany
    rw [unmark, if_neg hno, ih fun b hb => h b (List.mem_cons_of_mem a hb)]

/-- Every special symbol costs a mark. -/
theorem length_unmark_cons {a : α} {l : List α} (h : (a :: l).IsChain (Behind mark special)) :
    (unmark mark special (a :: l)).length + l.countP special = l.length + 1 := by
  induction l generalizing a with
  | nil =>
    rw [unmark_singleton]
    rfl
  | cons b l ih =>
    obtain ⟨hab, hl⟩ := List.isChain_cons_cons.mp h
    have ih := ih hl
    by_cases hb : special b = true
    · rw [hab hb, unmark_mark hb, List.countP_cons, if_pos hb, List.length_cons]
      omega
    · rw [unmark_cons a hb, List.countP_cons, if_neg hb, List.length_cons, List.length_cons]
      omega

theorem Guarded.length_unmark {l : List α} (h : Guarded mark special l) :
    (unmark mark special l).length + l.countP special = l.length := by
  cases l with
  | nil => rfl
  | cons a l =>
    rw [List.countP_cons, h.1 a rfl]
    exact length_unmark_cons h.2

end Mym
