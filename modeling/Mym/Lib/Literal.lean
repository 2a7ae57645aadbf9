import Mathlib.Data.List.Basic
import Mathlib.Data.Sum.Basic

/-!
# Quoted literals

A text has literals in it, which stand between two quotes of a kind.  Inside, a mark says that the next
symbol is to be decoded, and a quote that is doubled stands for itself.  An `EscapeTable` knows what the
decoding does, and how to write every symbol that cannot stand for itself.  Outside, the table follows
the text with an automaton, whose states say where a quote begins a literal: in a comment it does not.

A template is a text with holes.  `lex` cuts it into `Token`s, single symbols and literals, and the main
result, `lex_fill`, says that filling the holes changes the tokens in no other way than by filling
their holes: no filling ends a literal, or begins one.  What fills a hole inside a literal is
escaped and may be anything; what fills a hole outside has to be `Bare`.
-/

namespace Mym

structure EscapeTable (α σ : Type) where
  mark : α
  isQuote : α → Bool
  /-- what stands behind a mark for a symbol that cannot stand for itself -/
  code : α → Option α
  /-- what a symbol behind a mark stands for -/
  decode : α → List α
  decode_code : ∀ {b c}, code b = some c → decode c = [b]
  mark_coded : code mark ≠ none
  quote_coded : ∀ {q}, isQuote q = true → code q ≠ none
  /-- the state at the beginning, and behind a literal -/
  start : σ
  step : σ → α → σ
  /-- a quote begins a literal here -/
  opens : σ → Bool
  /-- the state behind a hole -/
  skip : σ → σ
  /-- a text may end here -/
  ends : σ → Bool

namespace EscapeTable

variable {α β σ : Type} (t : EscapeTable α σ)

abbrev Quote : Type := { q : α // t.isQuote q = true }

def escape (bs : List α) : List α :=
  bs.flatMap fun b => match t.code b with
    | some c => [t.mark, c]
    | none => [b]

/-- It can stand outside: it can be told from nothing, and leads where a hole does. -/
structure Bare (bs : List α) : Prop where
  ne_nil : bs ≠ []
  code : ∀ b ∈ bs, t.code b = none
  skips : ∀ w, bs.foldl t.step w = t.skip w

theorem escape_of_bare {bs : List α} (h : ∀ b ∈ bs, t.code b = none) : t.escape bs = bs := by
  induction bs with
  | nil => rfl
  | cons b bs ih =>
    rw [escape, List.flatMap_cons, h b List.mem_cons_self]
    exact congrArg (b :: ·) (ih fun c hc => h c (List.mem_cons_of_mem b hc))

variable {t} in
theorem not_quote_of_code {b : α} (h : t.code b = none) : ¬t.isQuote b = true :=
  fun hq => t.quote_coded hq h

variable {t} in
theorem not_mark_of_code {b : α} (h : t.code b = none) : b ≠ t.mark :=
  fun he => t.mark_coded (he ▸ h)

end EscapeTable

/-- A symbol of a template, or one of its holes. -/
abbrev Symbol (α β : Type) := α ⊕ β

inductive Token {α σ : Type} (t : EscapeTable α σ) (β : Type) where
  | plain (x : Symbol α β)
  | literal (q : t.Quote) (s : List (Symbol α β))

/-- Where a lexer is: a literal that is being read has its quote and what it holds so far.  `closing` is
behind a quote that ends it, unless it is doubled. -/
inductive Mode {α σ : Type} (t : EscapeTable α σ) (β : Type) where
  | outside (w : σ)
  | inside (q : t.Quote) (s : List (Symbol α β))
  | escaped (q : t.Quote) (s : List (Symbol α β))
  | closing (q : t.Quote) (s : List (Symbol α β))
  /-- a hole stands behind a mark -/
  | broken

/-- What has been read, and where the lexer is. -/
structure Lexer {α σ : Type} (t : EscapeTable α σ) (β : Type) where
  done : List (Token t β)
  mode : Mode t β

namespace Lexer

variable {α β σ : Type} {t : EscapeTable α σ}

/-- A symbol outside of literals. -/
def feedOutside (done : List (Token t β)) (w : σ) : Symbol α β → Lexer t β
  | .inl a =>
    if h : t.isQuote a = true ∧ t.opens w = true then ⟨done, .inside ⟨a, h.1⟩ []⟩
    else ⟨done ++ [.plain (.inl a)], .outside (t.step w a)⟩
  | .inr h => ⟨done ++ [.plain (.inr h)], .outside (t.skip w)⟩

theorem feedOutside_quote (done : List (Token t β)) {w : σ} {a : α}
    (h : t.isQuote a = true ∧ t.opens w = true) :
    feedOutside done w (.inl a) = ⟨done, .inside ⟨a, h.1⟩ []⟩ := dif_pos h

theorem feedOutside_plain (done : List (Token t β)) {w : σ} {a : α}
    (h : ¬(t.isQuote a = true ∧ t.opens w = true)) :
    feedOutside done w (.inl a) = ⟨done ++ [.plain (.inl a)], .outside (t.step w a)⟩ := dif_neg h

def start : Lexer t β := ⟨[], .outside t.start⟩

def finish (l : Lexer t β) : Option (List (Token t β)) :=
  match l.mode with
  | .outside w => if t.ends w = true then some l.done else none
  | .closing q s => some (l.done ++ [.literal q s])
  | _ => none

variable [DecidableEq α]

def feed (l : Lexer t β) (x : Symbol α β) : Lexer t β :=
  match l.mode, x with
  | .outside w, x => feedOutside l.done w x
  | .inside q s, .inl a =>
    if a = t.mark then ⟨l.done, .escaped q s⟩
    else if a = q.1 then ⟨l.done, .closing q s⟩
    else ⟨l.done, .inside q (s ++ [.inl a])⟩
  | .inside q s, .inr h => ⟨l.done, .inside q (s ++ [.inr h])⟩
  | .escaped q s, .inl a => ⟨l.done, .inside q (s ++ (t.decode a).map .inl)⟩
  | .escaped _ _, .inr _ => ⟨l.done, .broken⟩
  | .closing q s, .inl a =>
    if a = q.1 then ⟨l.done, .inside q (s ++ [.inl a])⟩
    else feedOutside (l.done ++ [.literal q s]) t.start (.inl a)
  | .closing q s, .inr h => feedOutside (l.done ++ [.literal q s]) t.start (.inr h)
  | .broken, _ => l

section Feed

variable (done : List (Token t β)) (w : σ) (q : t.Quote) (s : List (Symbol α β)) (a : α)
  (x : Symbol α β)

theorem feed_outside : feed ⟨done, .outside w⟩ x = feedOutside done w x := rfl

theorem feed_inside : feed ⟨done, .inside q s⟩ (.inl a)
    = if a = t.mark then ⟨done, .escaped q s⟩
      else if a = q.1 then ⟨done, .closing q s⟩
      else ⟨done, .inside q (s ++ [.inl a])⟩ := rfl

theorem feed_escaped :
    feed ⟨done, .escaped q s⟩ (.inl a) = ⟨done, .inside q (s ++ (t.decode a).map .inl)⟩ := rfl

theorem feed_closing : feed ⟨done, .closing q s⟩ (.inl a)
    = if a = q.1 then ⟨done, .inside q (s ++ [.inl a])⟩
      else feedOutside (done ++ [.literal q s]) t.start (.inl a) := rfl

end Feed

def read (l : Lexer t β) (xs : List (Symbol α β)) : Lexer t β := xs.foldl feed l

theorem read_cons (l : Lexer t β) (x : Symbol α β) (xs : List (Symbol α β)) :
    l.read (x :: xs) = (l.feed x).read xs := rfl

theorem read_append (l : Lexer t β) (xs ys : List (Symbol α β)) :
    l.read (xs ++ ys) = (l.read xs).read ys := List.foldl_append

end Lexer

/-- The tokens of a template; none when a literal does not end, or the text does where it may not. -/
def lex {α β σ : Type} [DecidableEq α] (t : EscapeTable α σ) (xs : List (Symbol α β)) :
    Option (List (Token t β)) := (Lexer.start.read xs).finish

/-! ### Filling holes -/

section Fill

variable {α β σ : Type} (f : β → List α)

/-- The holes are filled as they are. -/
def fillSymbols (xs : List (Symbol α β)) : List (Symbol α β) :=
  xs.flatMap (Sum.elim (fun a => [.inl a]) fun h => (f h).map .inl)

@[simp] theorem fillSymbols_nil : fillSymbols f [] = [] := rfl

@[simp] theorem fillSymbols_cons (x : Symbol α β) (xs : List (Symbol α β)) :
    fillSymbols f (x :: xs)
      = Sum.elim (fun a => [.inl a]) (fun h => (f h).map .inl) x ++ fillSymbols f xs := rfl

@[simp] theorem fillSymbols_inl (bs : List α) :
    fillSymbols f (bs.map .inl : List (Symbol α β)) = bs.map .inl := by
  induction bs with
  | nil => rfl
  | cons b bs ih => rw [List.map_cons, fillSymbols_cons, ih]; rfl

@[simp] theorem fillSymbols_append (xs ys : List (Symbol α β)) :
    fillSymbols f (xs ++ ys) = fillSymbols f xs ++ fillSymbols f ys := List.flatMap_append

variable {t : EscapeTable α σ}

def Token.fill : Token t β → List (Token t β)
  | .plain x => (fillSymbols f [x]).map .plain
  | .literal q s => [.literal q (fillSymbols f s)]

def Mode.fill : Mode t β → Mode t β
  | .outside w => .outside w
  | .inside q s => .inside q (fillSymbols f s)
  | .escaped q s => .escaped q (fillSymbols f s)
  | .closing q s => .closing q (fillSymbols f s)
  | .broken => .broken

def Lexer.fill (l : Lexer t β) : Lexer t β := ⟨l.done.flatMap (Token.fill f), l.mode.fill f⟩

end Fill

namespace Lexer

variable {α β σ : Type} {t : EscapeTable α σ} {f : β → List α}

/-- A lexer that ends has kept what it read. -/
theorem finish_spec {l : Lexer t β} {toks : List (Token t β)} (h : l.finish = some toks) :
    l.mode ≠ .broken ∧ l.done <+: toks := by
  obtain ⟨done, mode⟩ := l
  cases mode with
  | outside w =>
    obtain ⟨-, h⟩ := Option.ite_none_right_eq_some.mp h
    cases h
    exact ⟨(fun hm => by cases hm), List.prefix_rfl⟩
  | closing q s =>
    cases h
    exact ⟨(fun hm => by cases hm), List.prefix_append _ _⟩
  | _ => cases h

theorem finish_fill {l : Lexer t β} {toks : List (Token t β)} (h : l.finish = some toks) :
    (l.fill f).finish = some (toks.flatMap (Token.fill f)) := by
  obtain ⟨done, mode⟩ := l
  cases mode with
  | outside w =>
    obtain ⟨hends, h⟩ := Option.ite_none_right_eq_some.mp h
    cases h
    exact if_pos hends
  | closing q s =>
    cases h
    rw [List.flatMap_append]
    rfl
  | _ => cases h

variable [DecidableEq α]

theorem read_broken {l : Lexer t β} (h : l.mode = .broken) (xs : List (Symbol α β)) :
    (l.read xs).mode = .broken := by
  induction xs generalizing l with
  | nil => exact h
  | cons x xs ih =>
    refine ih ?_
    unfold feed
    rw [h]
    exact h

/-- Tokens that have been read stay. -/
theorem feed_done (l : Lexer t β) (x : Symbol α β) : l.done <+: (l.feed x).done := by
  have hout : ∀ (done : List (Token t β)) (w : σ), done <+: (feedOutside done w x).done := by
    intro done w
    cases x with
    | inl a =>
      unfold feedOutside
      dsimp only
      split
      · exact List.prefix_rfl
      · exact List.prefix_append _ _
    | inr h => exact List.prefix_append _ _
  unfold feed
  split
  · exact hout _ _
  · split
    · exact List.prefix_rfl
    · split <;> exact List.prefix_rfl
  · exact List.prefix_rfl
  · exact List.prefix_rfl
  · exact List.prefix_rfl
  · split
    · exact List.prefix_rfl
    · exact (List.prefix_append _ _).trans (hout _ _)
  · exact (List.prefix_append _ _).trans (hout _ _)
  · exact List.prefix_rfl

theorem read_done (l : Lexer t β) (xs : List (Symbol α β)) : l.done <+: (l.read xs).done := by
  induction xs generalizing l with
  | nil => exact List.prefix_rfl
  | cons x xs ih => exact (l.feed_done x).trans (ih (l.feed x))

/-- A hole outside is a hole of the template. -/
theorem mem_feed_done {l : Lexer t β} {x : Symbol α β} {h : β}
    (hh : .plain (.inr h) ∈ (l.feed x).done) : .plain (.inr h) ∈ l.done ∨ x = .inr h := by
  have hout : ∀ (done : List (Token t β)) (w : σ), .plain (.inr h) ∈ (feedOutside done w x).done →
      .plain (.inr h) ∈ done ∨ x = .inr h := by
    intro done w hd
    cases x with
    | inl a =>
      by_cases hq : t.isQuote a = true ∧ t.opens w = true
      · rw [feedOutside_quote _ hq] at hd
        exact Or.inl hd
      · rw [feedOutside_plain _ hq] at hd
        simpa using hd
    | inr h' =>
      simp only [feedOutside, List.mem_append, List.mem_singleton, Token.plain.injEq] at hd
      exact hd.imp_right Eq.symm
  have hclosed : ∀ q s, .plain (.inr h) ∈ (feedOutside (l.done ++ [.literal q s]) t.start x).done →
      .plain (.inr h) ∈ l.done ∨ x = .inr h := by
    intro q s hd
    refine (hout _ _ hd).imp_left fun hmem => ?_
    simpa using hmem
  unfold feed at hh
  split at hh
  · exact hout _ _ hh
  · split at hh
    · exact Or.inl hh
    · split at hh <;> exact Or.inl hh
  · exact Or.inl hh
  · exact Or.inl hh
  · exact Or.inl hh
  · split at hh
    · exact Or.inl hh
    · exact hclosed _ _ hh
  · exact hclosed _ _ hh
  · exact Or.inl hh

theorem mem_read_done {l : Lexer t β} {xs : List (Symbol α β)} {h : β}
    (hh : .plain (.inr h) ∈ (l.read xs).done) : .plain (.inr h) ∈ l.done ∨ .inr h ∈ xs := by
  induction xs generalizing l with
  | nil => exact Or.inl hh
  | cons x xs ih =>
    rcases ih hh with hfeed | hmem
    · rcases mem_feed_done hfeed with hd | rfl
      · exact Or.inl hd
      · exact Or.inr List.mem_cons_self
    · exact Or.inr (List.mem_cons_of_mem x hmem)

/-- **What is escaped stays inside**: it is read as what it was. -/
theorem read_escape (done : List (Token t β)) (q : t.Quote) (s : List (Symbol α β)) (bs : List α) :
    read ⟨done, .inside q s⟩ ((t.escape bs).map .inl) = ⟨done, .inside q (s ++ bs.map .inl)⟩ := by
  induction bs generalizing s with
  | nil => rw [List.map_nil, List.append_nil]; rfl
  | cons b bs ih =>
    have hcons : t.escape (b :: bs)
        = (match t.code b with | some c => [t.mark, c] | none => [b]) ++ t.escape bs := rfl
    have hstep : read ⟨done, .inside q s⟩
        ((match t.code b with | some c => [t.mark, c] | none => [b]).map .inl)
        = ⟨done, .inside q (s ++ [.inl b])⟩ := by
      cases hc : t.code b with
      | some c =>
        rw [List.map_cons, List.map_cons, List.map_nil, read_cons, read_cons, feed_inside,
          if_pos rfl, feed_escaped, t.decode_code hc]
        rfl
      | none =>
        have hq : b ≠ q.1 := fun he => EscapeTable.not_quote_of_code hc (he ▸ q.2)
        rw [List.map_cons, List.map_nil, read_cons, feed_inside,
          if_neg (EscapeTable.not_mark_of_code hc), if_neg hq]
        rfl
    rw [hcons, List.map_append, read_append, hstep, ih, List.map_cons, List.append_assoc]
    rfl

theorem read_outside (done : List (Token t β)) (w : σ) {bs : List α}
    (h : ∀ b ∈ bs, t.code b = none) : read ⟨done, .outside w⟩ (bs.map .inl)
      = ⟨done ++ bs.map fun b => .plain (.inl b), .outside (bs.foldl t.step w)⟩ := by
  induction bs generalizing done w with
  | nil => rw [List.map_nil, List.map_nil, List.append_nil]; rfl
  | cons b bs ih =>
    have hb : ¬(t.isQuote b = true ∧ t.opens w = true) := fun hand =>
      EscapeTable.not_quote_of_code (h b List.mem_cons_self) hand.1
    rw [List.map_cons, read_cons, feed_outside, feedOutside_plain _ hb,
      ih _ _ fun c hc => h c (List.mem_cons_of_mem b hc), List.append_assoc]
    rfl

/-- What fills a hole, as it is written. -/
def written (t : EscapeTable α σ) (f : β → List α) (x : Symbol α β) : List (Symbol α β) :=
  x.elim (fun a => [.inl a]) fun h => (t.escape (f h)).map .inl

theorem feedOutside_fill (done : List (Token t β)) (w : σ) {x : Symbol α β}
    (hx : ∀ h, x = .inr h → t.Bare (f h)) :
    read ⟨done.flatMap (Token.fill f), .outside w⟩ (written t f x)
      = (feedOutside done w x).fill f := by
  cases x with
  | inl a =>
    rw [written, Sum.elim_inl, read_cons, feed_outside]
    by_cases hq : t.isQuote a = true ∧ t.opens w = true
    · rw [feedOutside_quote _ hq, feedOutside_quote _ hq]
      rfl
    · rw [feedOutside_plain _ hq, feedOutside_plain _ hq, Lexer.fill, List.flatMap_append]
      rfl
  | inr h =>
    have hbare := hx h rfl
    rw [written, Sum.elim_inr, EscapeTable.escape_of_bare t hbare.code, read_outside _ _ hbare.code,
      hbare.skips, feedOutside, Lexer.fill, List.flatMap_append]
    simp [Token.fill, Mode.fill]

/-- Behind a quote, what is written ends the literal unless it begins with that quote. -/
theorem read_closing (done : List (Token t β)) (q : t.Quote) (s : List (Symbol α β))
    {xs : List (Symbol α β)} (hne : xs ≠ []) (hhead : ∀ x ∈ xs.head?, x ≠ .inl q.1)
    (hplain : ∀ x ∈ xs, ∃ a, x = .inl a) :
    read ⟨done, .closing q s⟩ xs = read ⟨done ++ [.literal q s], .outside t.start⟩ xs := by
  cases xs with
  | nil => exact absurd rfl hne
  | cons x xs =>
    obtain ⟨a, rfl⟩ := hplain x List.mem_cons_self
    have ha : a ≠ q.1 := fun he => hhead _ rfl (congrArg Sum.inl he)
    rw [read_cons, read_cons, feed_closing, if_neg ha, feed_outside]

/-- Behind a quote, the filled literal ends where the literal does. -/
theorem feed_closing_fill (done : List (Token t β)) (q : t.Quote) (s : List (Symbol α β))
    {x : Symbol α β} (hx : ∀ h, x = .inr h → t.Bare (f h)) :
    (Lexer.fill f ⟨done, .closing q s⟩).read (written t f x)
      = (feed ⟨done, .closing q s⟩ x).fill f := by
  have hfilled : (done ++ [Token.literal q s]).flatMap (Token.fill f)
      = done.flatMap (Token.fill f) ++ [.literal q (fillSymbols f s)] := List.flatMap_append
  have hout := feedOutside_fill (f := f) (done ++ [.literal q s]) t.start hx
  rw [hfilled] at hout
  cases x with
  | inl a =>
    rw [feed_closing]
    split
    · next ha =>
      rw [written, Sum.elim_inl, read_cons, Lexer.fill, Mode.fill, feed_closing, if_pos ha]
      simp [Lexer.fill, Mode.fill, read]
    · next ha =>
      rw [← hout]
      refine read_closing _ q _ ?_ ?_ ?_
      · exact List.cons_ne_nil _ _
      · rintro x ⟨rfl⟩ he
        exact ha (Sum.inl.inj he)
      · exact fun x hx => ⟨a, List.mem_singleton.mp hx⟩
  | inr h =>
    have hh : t.Bare (f h) := hx h rfl
    refine Eq.trans ?_ hout
    have hwritten : written t f (.inr h) = (f h).map .inl := by
      rw [written, Sum.elim_inr, EscapeTable.escape_of_bare t hh.code]
    rw [hwritten]
    refine read_closing _ q _ ?_ ?_ ?_
    · simpa using hh.ne_nil
    · intro x hx he
      obtain ⟨b, hb, rfl⟩ := List.mem_map.mp (List.mem_of_mem_head? hx)
      exact EscapeTable.not_quote_of_code (hh.code b hb) (Sum.inl.inj he ▸ q.2)
    · intro x hx
      obtain ⟨b, -, rfl⟩ := List.mem_map.mp hx
      exact ⟨b, rfl⟩

/-- **One symbol**: the filled lexer reads what is written for it as the lexer reads the symbol. -/
theorem feed_fill {l : Lexer t β} {x : Symbol α β} (hb : (l.feed x).mode ≠ .broken)
    (hbare : ∀ h, .plain (.inr h) ∈ (l.feed x).done → t.Bare (f h)) :
    (l.fill f).read (written t f x) = (l.feed x).fill f := by
  obtain ⟨done, mode⟩ := l
  cases mode with
  | outside w =>
    refine feedOutside_fill done w fun h hx => hbare h ?_
    rw [feed_outside, hx]
    exact List.mem_append_right _ List.mem_cons_self
  | inside q s =>
    cases x with
    | inl a =>
      unfold written
      rw [Sum.elim_inl, read_cons, feed_inside, Lexer.fill, Mode.fill, feed_inside]
      split
      · rfl
      · split
        · rfl
        · simp [Lexer.fill, Mode.fill, read]
    | inr h =>
      refine (read_escape _ q _ (f h)).trans ?_
      simp [Lexer.fill, Mode.fill, feed]
  | escaped q s =>
    cases x with
    | inl a => simp [written, read, feed_escaped, Lexer.fill, Mode.fill]
    | inr h => exact absurd rfl hb
  | closing q s =>
    refine feed_closing_fill done q s fun h hx => hbare h ?_
    rw [hx]
    exact List.mem_append_right _ List.mem_cons_self
  | broken => exact absurd rfl hb

theorem read_fill {l : Lexer t β} {xs : List (Symbol α β)} (hb : (l.read xs).mode ≠ .broken)
    (hbare : ∀ h, .plain (.inr h) ∈ (l.read xs).done → t.Bare (f h)) :
    (l.fill f).read (xs.flatMap (written t f)) = (l.read xs).fill f := by
  induction xs generalizing l with
  | nil => rfl
  | cons x xs ih =>
    rw [List.flatMap_cons, read_append, feed_fill, ih hb hbare]
    · rfl
    · exact fun h => hb (read_broken h xs)
    · exact fun h hh => hbare h ((read_done (l.feed x) xs).subset hh)

end Lexer

/-- **Filling the holes of a template fills the holes of its tokens**, and does nothing else. -/
theorem lex_fill {α β σ : Type} [DecidableEq α] {t : EscapeTable α σ} {f : β → List α}
    {xs : List (Symbol α β)} {toks : List (Token t β)} (h : lex t xs = some toks)
    (hbare : ∀ h, .plain (.inr h) ∈ toks → t.Bare (f h)) :
    lex t (xs.flatMap (Lexer.written t f)) = some (toks.flatMap (Token.fill f)) := by
  have hdone := Lexer.finish_spec h
  have hread := Lexer.read_fill (f := f) hdone.1 fun h hh => hbare h (hdone.2.subset hh)
  rw [lex, ← Lexer.finish_fill h, ← hread]
  rfl

theorem mem_of_plain {α β σ : Type} [DecidableEq α] {t : EscapeTable α σ} {xs : List (Symbol α β)}
    {toks : List (Token t β)} (h : lex t xs = some toks) {k : β} (hk : .plain (.inr k) ∈ toks) :
    .inr k ∈ xs := by
  have hdone : .plain (.inr k) ∈ (Lexer.start.read xs : Lexer t β).done := by
    unfold lex Lexer.finish at h
    split at h
    · obtain ⟨-, h⟩ := Option.ite_none_right_eq_some.mp h
      cases h
      exact hk
    · cases h
      simpa using hk
    · cases h
  rcases Lexer.mem_read_done hdone with hstart | hmem
  · cases hstart
  · exact hmem

end Mym
