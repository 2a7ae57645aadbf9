import Mathlib.Data.List.Basic
import Mathlib.Tactic.Ring

/-!
# Bracketed pieces of a list

A list is cut into pieces at an opening and a closing symbol: a `Piece` is what stands in
front of an opening symbol, and the body between that symbol and a closing one.  `joined`
puts pieces together again, and `places` says where in the result the two symbols of each
piece stand.  The pieces are `Leftmost` when no earlier symbol could have been taken.
-/

namespace Mym

variable {α : Type}

/-! ### The first occurrence -/

/-- A symbol is missing, or `idxOf?` finds the first one. -/
theorem idxOf?_cases [BEq α] [LawfulBEq α] (a : α) (l : List α) :
    (a ∉ l ∧ l.idxOf? a = none) ∨
      ∃ s t, l = s ++ a :: t ∧ a ∉ s ∧ l.idxOf? a = some s.length := by
  by_cases h : a ∈ l
  · obtain ⟨s, t, rfl, hs⟩ := List.eq_append_cons_of_mem h
    refine Or.inr ⟨s, t, rfl, hs, List.idxOf?_eq_some_iff.mpr ⟨?_, ?_, fun j hj he => hs ?_⟩⟩
    · simp
    · simp
    · rw [List.getElem_append_left hj] at he
      rw [← he]
      exact List.getElem_mem hj
  · exact Or.inl ⟨h, List.idxOf?_eq_none_iff.mpr h⟩

/-! ### Pieces -/

@[ext] structure Piece (α : Type) where
  before : List α
  body : List α

namespace Piece

def text (o c : α) (p : Piece α) : List α := p.before ++ o :: (p.body ++ [c])

def size (p : Piece α) : Nat := p.before.length + p.body.length + 2

@[simp] theorem length_text (o c : α) (p : Piece α) : (p.text o c).length = p.size := by
  simp only [text, size, List.length_append, List.length_cons, List.length_nil]
  omega

end Piece

/-- The pieces one after another. -/
def joined (o c : α) (ps : List (Piece α)) : List α := (ps.map (Piece.text o c)).flatten

def span (ps : List (Piece α)) : Nat := (ps.map Piece.size).sum

@[simp] theorem joined_nil (o c : α) : joined o c ([] : List (Piece α)) = [] := rfl

theorem joined_cons (o c : α) (p : Piece α) (ps : List (Piece α)) :
    joined o c (p :: ps) = p.text o c ++ joined o c ps := rfl

theorem joined_append (o c : α) (ps qs : List (Piece α)) :
    joined o c (ps ++ qs) = joined o c ps ++ joined o c qs := by
  rw [joined, List.map_append, List.flatten_append]
  rfl

@[simp] theorem span_nil : span ([] : List (Piece α)) = 0 := rfl

theorem span_cons (p : Piece α) (ps : List (Piece α)) : span (p :: ps) = p.size + span ps := by
  rw [span, List.map_cons, List.sum_cons]
  rfl

theorem span_append (ps qs : List (Piece α)) : span (ps ++ qs) = span ps + span qs := by
  rw [span, List.map_append, List.sum_append]
  rfl

theorem size_le_span {p : Piece α} {ps : List (Piece α)} (h : p ∈ ps) : p.size ≤ span ps := by
  obtain ⟨l, r, rfl⟩ := List.append_of_mem h
  rw [span_append, span_cons]
  omega

theorem mem_joined {o c a : α} {p : Piece α} {ps : List (Piece α)} (hp : p ∈ ps)
    (h : a ∈ p.before ∨ a ∈ p.body) : a ∈ joined o c ps := by
  refine List.mem_flatten.mpr ⟨p.text o c, List.mem_map_of_mem hp, ?_⟩
  rcases h with h | h
  · exact List.mem_append_left _ h
  · exact List.mem_append_right _ (List.mem_cons_of_mem o (List.mem_append_left _ h))

@[simp] theorem length_joined (o c : α) (ps : List (Piece α)) :
    (joined o c ps).length = span ps := by
  induction ps with
  | nil => rfl
  | cons p ps ih => rw [joined_cons, List.length_append, Piece.length_text, ih, span_cons]

/-- Where the symbols of the pieces stand, from position `b` on. -/
def places : Nat → List (Piece α) → List (Nat × Nat)
  | _, [] => []
  | b, p :: ps =>
    (b + p.before.length, b + p.before.length + 1 + p.body.length) :: places (b + p.size) ps

@[simp] theorem length_places (b : Nat) (ps : List (Piece α)) : (places b ps).length = ps.length := by
  induction ps generalizing b with
  | nil => rfl
  | cons p ps ih => rw [places, List.length_cons, ih, List.length_cons]

theorem places_append (b : Nat) (ps qs : List (Piece α)) :
    places b (ps ++ qs) = places b ps ++ places (b + span ps) qs := by
  induction ps generalizing b with
  | nil => rfl
  | cons p ps ih =>
    rw [List.cons_append, places, ih, places, List.cons_append, span_cons, Nat.add_assoc b p.size]

theorem joined_snoc (o c : α) (ps : List (Piece α)) (p : Piece α) :
    joined o c (ps ++ [p]) = joined o c ps ++ p.text o c := by
  rw [joined_append, joined_cons, joined_nil, List.append_nil]

theorem span_snoc (ps : List (Piece α)) (p : Piece α) : span (ps ++ [p]) = span ps + p.size := by
  rw [span_append, span_cons, span_nil, Nat.add_zero]

theorem places_snoc (b : Nat) (ps : List (Piece α)) (p : Piece α) :
    places b (ps ++ [p]) = places b ps ++
      [(b + span ps + p.before.length, b + span ps + p.before.length + 1 + p.body.length)] := by
  rw [places_append]
  rfl

/-- No piece goes past a symbol that it could have ended with. -/
def Leftmost (o c : α) (ps : List (Piece α)) : Prop := ∀ p ∈ ps, o ∉ p.before ∧ c ∉ p.body

theorem leftmost_nil (o c : α) : Leftmost o c ([] : List (Piece α)) := fun _ h => by cases h

theorem Leftmost.snoc {o c : α} {ps : List (Piece α)} (h : Leftmost o c ps) {p : Piece α}
    (hp : o ∉ p.before ∧ c ∉ p.body) : Leftmost o c (ps ++ [p]) := by
  intro x hx
  rcases List.mem_append.mp hx with hx | hx
  · exact h x hx
  · rw [List.mem_singleton.mp hx]
    exact hp

theorem Leftmost.tail {o c : α} {p : Piece α} {ps : List (Piece α)} (h : Leftmost o c (p :: ps)) :
    Leftmost o c ps := fun x hx => h x (List.mem_cons_of_mem p hx)

/-- The first occurrence of a symbol is one place. -/
theorem append_cons_inj {a : α} {s s' t t' : List α} (hs : a ∉ s) (hs' : a ∉ s')
    (h : s ++ a :: t = s' ++ a :: t') : s = s' ∧ t = t' := by
  induction s generalizing s' with
  | nil =>
    cases s' with
    | nil => exact ⟨rfl, (List.cons.inj h).2⟩
    | cons b s' => exact absurd (List.mem_cons.mpr (Or.inl (List.cons.inj h).1)) hs'
  | cons b s ih =>
    cases s' with
    | nil => exact absurd (List.mem_cons.mpr (Or.inl (List.cons.inj h).1.symm)) hs
    | cons b' s' =>
      obtain ⟨rfl, hrest⟩ := List.cons.inj h
      obtain ⟨rfl, rfl⟩ := ih (fun hm => hs (List.mem_cons_of_mem b hm))
        (fun hm => hs' (List.mem_cons_of_mem b hm)) hrest
      exact ⟨rfl, rfl⟩

/-- The symbols of a leftmost piece say where it ends. -/
theorem Piece.text_inj {o c : α} {p q : Piece α} (hp : o ∉ p.before ∧ c ∉ p.body)
    (hq : o ∉ q.before ∧ c ∉ q.body) {s t : List α} (h : p.text o c ++ s = q.text o c ++ t) :
    p = q ∧ s = t := by
  simp only [Piece.text, List.append_assoc, List.cons_append, List.nil_append] at h
  obtain ⟨hbefore, hrest⟩ := append_cons_inj hp.1 hq.1 h
  obtain ⟨hbody, hend⟩ := append_cons_inj hp.2 hq.2 hrest
  exact ⟨Piece.ext hbefore hbody, hend⟩

/-- A list can be cut in one way, as long as the cutting goes on while there is an opening symbol. -/
theorem leftmost_unique {o c : α} {ps qs : List (Piece α)} {s t : List α} {n : Nat}
    (hps : Leftmost o c ps) (hqs : Leftmost o c qs)
    (h : joined o c ps ++ s = joined o c qs ++ t) (hp : ps.length ≤ n) (hq : qs.length ≤ n)
    (hs : ps.length < n → o ∉ s) (ht : qs.length < n → o ∉ t) : ps = qs ∧ s = t := by
  induction ps generalizing qs n with
  | nil =>
    cases qs with
    | nil => exact ⟨rfl, h⟩
    | cons q qs =>
      refine absurd ?_ (hs (Nat.lt_of_lt_of_le (Nat.succ_pos _) hq))
      rw [joined_nil, List.nil_append] at h
      rw [h, joined_cons]
      simp [Piece.text]
  | cons p ps ih =>
    cases qs with
    | nil =>
      refine absurd ?_ (ht (Nat.lt_of_lt_of_le (Nat.succ_pos _) hp))
      rw [joined_nil, List.nil_append] at h
      rw [← h, joined_cons]
      simp [Piece.text]
    | cons q qs =>
      cases n with
      | zero => cases hp
      | succ n =>
        rw [joined_cons, joined_cons, List.append_assoc, List.append_assoc] at h
        obtain ⟨rfl, hrest⟩ := Piece.text_inj (hps p List.mem_cons_self) (hqs q List.mem_cons_self) h
        obtain ⟨rfl, rfl⟩ := ih hps.tail hqs.tail hrest (Nat.le_of_succ_le_succ hp)
          (Nat.le_of_succ_le_succ hq) (fun hlt => hs (Nat.succ_lt_succ hlt))
          (fun hlt => ht (Nat.succ_lt_succ hlt))
        exact ⟨rfl, rfl⟩

/-- The places of the pieces determine them. -/
theorem places_inj {o c : α} {ps qs : List (Piece α)} {s t : List α} {b : Nat}
    (h : joined o c ps ++ s = joined o c qs ++ t) (hplaces : places b ps = places b qs) :
    ps = qs ∧ s = t := by
  induction ps generalizing qs b with
  | nil =>
    cases qs with
    | nil => exact ⟨rfl, h⟩
    | cons q qs => cases hplaces
  | cons p ps ih =>
    cases qs with
    | nil => cases hplaces
    | cons q qs =>
      rw [places, places, List.cons.injEq, Prod.mk.injEq] at hplaces
      obtain ⟨⟨hbefore, hbody⟩, hrest⟩ := hplaces
      have hsize : p.size = q.size := by
        rw [Piece.size, Piece.size]
        omega
      rw [joined_cons, joined_cons, List.append_assoc, List.append_assoc] at h
      obtain ⟨htext, hmore⟩ := List.append_inj h
        (by rw [Piece.length_text, Piece.length_text, hsize])
      obtain ⟨hb, htext⟩ := List.append_inj htext (by omega)
      obtain ⟨hc, -⟩ := List.append_inj (List.cons.inj htext).2 (by omega)
      obtain rfl : p = q := Piece.ext hb hc
      obtain ⟨rfl, rfl⟩ := ih hmore hrest
      exact ⟨rfl, rfl⟩

end Mym
