import Mathlib.Data.List.TakeWhile
import Mathlib.Tactic.Ring
import Mym.Lib.Outcome

/-!
# Reading raw memory

A block of memory is a list of bytes, and a pointer into it is an offset.  Every
read says which bytes it touches: `readBytes mem pos n` is the `n` bytes from
`pos` when they lie inside `mem`, and `outside` otherwise (a read of no bytes
touches nothing).  On top of it stand little-endian words of any width
(`readWord`, `readWords`), NUL-terminated strings (`readCStr`), and comparison
with a literal up to the first difference (`sameAt`, which is `strcmp` for the
identity and `strcasecmp` for `toLower`).  `writeBytes` says where it writes in the same
way, and `readEntry` and `writeEntry` do so for a table of entries of any type.

`At mem pos bs` says that `bs` stands at `pos`.  It splits along `++`
(`at_append`), and each read has a lemma that turns an `At` into its result;
a decoder is run on an encoding by splitting one `At` and applying these.
-/

namespace Mym

abbrev Bytes := List UInt8

/-- A C string without its terminator: no byte of it is NUL. -/
abbrev CStr := {s : Bytes // (0 : UInt8) ∉ s}

/-! ### Little-endian words -/

/-- The `w` low bytes of `n`, lowest first. -/
def leBytes : Nat → Nat → Bytes
  | 0, _ => []
  | w + 1, n => UInt8.ofNat n :: leBytes w (n / 256)

/-- The number whose little-endian bytes these are. -/
def leNat : Bytes → Nat
  | [] => 0
  | b :: bs => b.toNat + 256 * leNat bs

@[simp] theorem length_leBytes (w n : Nat) : (leBytes w n).length = w := by
  induction w generalizing n with
  | zero => rfl
  | succ w ih => rw [leBytes, List.length_cons, ih]

theorem leNat_lt (bs : Bytes) : leNat bs < 256 ^ bs.length := by
  induction bs with
  | nil => decide
  | cons b bs ih =>
    have hb : b.toNat < 256 := b.toNat_lt
    rw [leNat, List.length_cons, Nat.pow_succ]
    omega

theorem leNat_leBytes {w n : Nat} (h : n < 256 ^ w) : leNat (leBytes w n) = n := by
  induction w generalizing n with
  | zero =>
    have : n = 0 := by simpa using h
    rw [this]; rfl
  | succ w ih =>
    have hq : n / 256 < 256 ^ w := by
      rw [Nat.div_lt_iff_lt_mul (by decide)]
      simpa [Nat.pow_succ] using h
    rw [leBytes, leNat, ih hq, UInt8.toNat_ofNat']
    omega

/-- The first `n` words of width `w`. -/
def toWords (w : Nat) : Nat → Bytes → List Nat
  | 0, _ => []
  | n + 1, bs => leNat (bs.take w) :: toWords w n (bs.drop w)

@[simp] theorem length_toWords (w n : Nat) (bs : Bytes) : (toWords w n bs).length = n := by
  induction n generalizing bs with
  | zero => rfl
  | succ n ih => rw [toWords, List.length_cons, ih]

/-- The words of a list of numbers, one after another. -/
def wordBytes (w : Nat) (ns : List Nat) : Bytes := (ns.map (leBytes w)).flatten

@[simp] theorem wordBytes_nil (w : Nat) : wordBytes w [] = [] := rfl

theorem wordBytes_cons (w n : Nat) (ns : List Nat) :
    wordBytes w (n :: ns) = leBytes w n ++ wordBytes w ns := rfl

@[simp] theorem length_wordBytes (w : Nat) (ns : List Nat) :
    (wordBytes w ns).length = w * ns.length := by
  induction ns with
  | nil => rfl
  | cons n ns ih =>
    rw [wordBytes_cons, List.length_append, length_leBytes, ih, List.length_cons]
    ring

theorem toWords_lt (w n : Nat) (bs : Bytes) : ∀ m ∈ toWords w n bs, m < 256 ^ w := by
  induction n generalizing bs with
  | zero =>
    intro m hm
    cases hm
  | succ n ih =>
    rw [toWords, List.forall_mem_cons]
    have hpow : 256 ^ (bs.take w).length ≤ 256 ^ w :=
      Nat.pow_le_pow_right (by decide) (List.length_take_le w bs)
    exact ⟨Nat.lt_of_lt_of_le (leNat_lt (bs.take w)) hpow, ih (bs.drop w)⟩

theorem toWords_wordBytes {w : Nat} {ns : List Nat} (h : ∀ n ∈ ns, n < 256 ^ w) :
    toWords w ns.length (wordBytes w ns) = ns := by
  induction ns with
  | nil => rfl
  | cons n ns ih =>
    rw [List.length_cons, wordBytes_cons, toWords, List.take_left' (length_leBytes w n),
      List.drop_left' (length_leBytes w n), leNat_leBytes (h n (by simp)),
      ih fun m hm => h m (by simp [hm])]

/-! ### What stands where -/

/-- `bs` stands in `mem` from `pos` on. -/
def At (mem : Bytes) (pos : Nat) (bs : Bytes) : Prop := bs <+: mem.drop pos

theorem at_append {mem : Bytes} {pos : Nat} {a b : Bytes} :
    At mem pos (a ++ b) ↔ At mem pos a ∧ At mem (pos + a.length) b := by
  unfold At
  refine ⟨?_, ?_⟩
  · intro h
    obtain ⟨t, ht⟩ := h
    refine ⟨⟨b ++ t, by rw [← ht, List.append_assoc]⟩, ⟨t, ?_⟩⟩
    rw [← List.drop_drop, ← ht, List.append_assoc, List.drop_left]
  · intro h
    obtain ⟨⟨t, ht⟩, hb⟩ := h
    rw [← List.drop_drop, ← ht, List.drop_left] at hb
    rw [← ht]
    exact (List.prefix_append_right_inj a).mpr hb

theorem at_cons {mem : Bytes} {pos : Nat} {c : UInt8} {b : Bytes} :
    At mem pos (c :: b) ↔ At mem pos [c] ∧ At mem (pos + 1) b :=
  at_append (a := [c])

theorem At.le_length {mem : Bytes} {pos : Nat} {bs : Bytes} (h : At mem pos bs) (hne : bs ≠ []) :
    pos + bs.length ≤ mem.length := by
  have h1 := List.IsPrefix.length_le h
  have h2 := List.length_pos_of_ne_nil hne
  rw [List.length_drop] at h1
  omega

theorem at_self (bs : Bytes) : At bs 0 bs := List.prefix_refl bs

theorem at_start (a b : Bytes) : At (a ++ b) 0 a := List.prefix_append a b

theorem at_middle (a b c : Bytes) : At (a ++ b ++ c) a.length b := by
  unfold At
  rw [List.append_assoc, List.drop_left]
  exact List.prefix_append b c

/-! ### Reads -/

section Reads

variable {ε : Type}

/-- The byte at `pos`. -/
def readByte (mem : Bytes) (pos : Nat) : Outcome ε UInt8 :=
  match mem[pos]? with
  | some b => .ok b
  | none => .outside

/-- The `n` bytes from `pos`. -/
def readBytes (mem : Bytes) (pos n : Nat) : Outcome ε {bs : Bytes // bs.length = n} :=
  if h : pos + n ≤ mem.length then
    .ok ⟨(mem.drop pos).take n, by rw [List.length_take, List.length_drop]; omega⟩
  else if h0 : n = 0 then .ok ⟨[], h0.symm⟩
  else .outside

/-- A little-endian word of `w` bytes. -/
def readWord (mem : Bytes) (pos w : Nat) : Outcome ε Nat := do
  let bs ← readBytes mem pos w
  .ok (leNat bs.1)

/-- `n` words of `w` bytes. -/
def readWords (mem : Bytes) (pos w n : Nat) : Outcome ε {ns : List Nat // ns.length = n} := do
  let bs ← readBytes mem pos (w * n)
  .ok ⟨toWords w n bs.1, length_toWords w n bs.1⟩

/-- The string from `pos` up to its NUL. -/
def readCStr (mem : Bytes) (pos : Nat) : Outcome ε CStr :=
  let s := (mem.drop pos).takeWhile (· ≠ 0)
  if pos + s.length < mem.length then
    .ok ⟨s, fun h => by simpa using List.mem_takeWhile_imp h⟩
  else .outside

/-- Compares what stands at `pos` with `cs`, byte by byte through `f`, and stops at
the first difference. -/
def sameAt (f : UInt8 → UInt8) (mem : Bytes) : Bytes → Nat → Outcome ε Bool
  | [], _ => .ok true
  | c :: cs, pos => do
    let b ← readByte mem pos
    if f b = f c then sameAt f mem cs (pos + 1) else .ok false

theorem readByte_of_at {mem : Bytes} {pos : Nat} {b : UInt8} (h : At mem pos [b]) :
    readByte (ε := ε) mem pos = .ok b := by
  obtain ⟨t, ht⟩ := h
  have : mem[pos]? = some b := by
    have := congrArg (fun l => l[0]?) ht
    simpa using this.symm
  rw [readByte, this]

theorem readBytes_of_at {mem : Bytes} {pos n : Nat} {bs : Bytes} (h : At mem pos bs)
    (hn : bs.length = n) : readBytes (ε := ε) mem pos n = .ok ⟨bs, hn⟩ := by
  unfold readBytes
  split
  · next hle =>
    have : (mem.drop pos).take n = bs := by
      rw [← hn]; exact (List.prefix_iff_eq_take.mp h).symm
    simp only [this]
  · next hle =>
    have h0 : bs = [] := by
      by_contra hne
      exact hle (hn ▸ h.le_length hne)
    subst h0
    subst hn
    exact dif_pos rfl

theorem readWord_of_at {mem : Bytes} {pos w n : Nat} (h : At mem pos (leBytes w n))
    (hn : n < 256 ^ w) : readWord (ε := ε) mem pos w = .ok n := by
  rw [readWord, readBytes_of_at h (length_leBytes w n), Outcome.ok_bind, leNat_leBytes hn]

theorem readWords_of_at {mem : Bytes} {pos w n : Nat} {ns : List Nat}
    (h : At mem pos (wordBytes w ns)) (hn : ∀ m ∈ ns, m < 256 ^ w) (hlen : ns.length = n) :
    readWords (ε := ε) mem pos w n = .ok ⟨ns, hlen⟩ := by
  subst hlen
  rw [readWords, readBytes_of_at h (length_wordBytes w ns), Outcome.ok_bind]
  simp only [toWords_wordBytes hn]

theorem takeWhile_ne_zero_append {s t : Bytes} (h : (0 : UInt8) ∉ s) :
    (s ++ 0 :: t).takeWhile (· ≠ 0) = s := by
  induction s with
  | nil => simp
  | cons c s ih =>
    have hc : c ≠ 0 := fun e => h (by simp [e])
    rw [List.cons_append, List.takeWhile_cons_of_pos (by simpa using hc),
      ih fun hs => h (by simp [hs])]

theorem readCStr_of_at {mem : Bytes} {pos : Nat} {s : CStr} (h : At mem pos (s.1 ++ [0])) :
    readCStr (ε := ε) mem pos = .ok s := by
  have hle := h.le_length (by simp)
  obtain ⟨t, ht⟩ := h
  have hs : (mem.drop pos).takeWhile (· ≠ 0) = s.1 := by
    rw [← ht, List.append_assoc]
    exact takeWhile_ne_zero_append s.2
  unfold readCStr
  simp only [hs]
  rw [List.length_append, List.length_singleton] at hle
  rw [if_pos (by omega)]

/-- A comparison that fails on the first byte. -/
theorem sameAt_of_head_ne (f : UInt8 → UInt8) {mem : Bytes} {pos : Nat} {b c : UInt8} {cs : Bytes}
    (h : At mem pos [b]) (hne : f b ≠ f c) :
    (sameAt f mem (c :: cs) pos : Outcome ε Bool) = .ok false := by
  rw [sameAt, readByte_of_at h, Outcome.ok_bind, if_neg hne]

theorem sameAt_of_at (f : UInt8 → UInt8) {mem : Bytes} {pos : Nat} {cs : Bytes}
    (h : At mem pos cs) : (sameAt f mem cs pos : Outcome ε Bool) = .ok true := by
  induction cs generalizing pos with
  | nil => rfl
  | cons c cs ih =>
    obtain ⟨h1, h2⟩ := at_cons.mp h
    rw [sameAt, readByte_of_at h1, Outcome.ok_bind, if_pos rfl, ih h2]

/-! ### When a read leaves the memory -/

theorem readByte_eq_outside {mem : Bytes} {pos : Nat} :
    readByte (ε := ε) mem pos = .outside ↔ mem.length ≤ pos := by
  unfold readByte
  rw [← List.getElem?_eq_none_iff]
  cases mem[pos]? <;> simp

theorem readByte_eq_ok {mem : Bytes} {pos : Nat} {b : UInt8} :
    readByte (ε := ε) mem pos = .ok b ↔ mem[pos]? = some b := by
  unfold readByte
  cases mem[pos]? <;> simp

theorem readByte_ne_raised (mem : Bytes) (pos : Nat) (e : ε) : readByte mem pos ≠ .raised e := by
  unfold readByte
  split
  · simp
  · simp

theorem readBytes_ne_raised (mem : Bytes) (pos n : Nat) (e : ε) :
    readBytes mem pos n ≠ .raised e := by
  intro h
  unfold readBytes at h
  split at h
  · cases h
  · split at h
    · cases h
    · cases h

theorem readCStr_ne_raised (mem : Bytes) (pos : Nat) (e : ε) : readCStr mem pos ≠ .raised e := by
  intro h
  unfold readCStr at h
  dsimp only at h
  split at h
  · cases h
  · cases h

theorem readBytes_eq_ok {mem : Bytes} {pos n : Nat} (h : pos + n ≤ mem.length) :
    readBytes (ε := ε) mem pos n =
      .ok ⟨(mem.drop pos).take n, by rw [List.length_take, List.length_drop]; omega⟩ := dif_pos h

/-- The `n` bytes from `pos` lie in the memory. -/
def Inside (mem : Bytes) (pos n : Nat) : Prop := n = 0 ∨ pos + n ≤ mem.length

instance (mem : Bytes) (pos n : Nat) : Decidable (Inside mem pos n) :=
  inferInstanceAs (Decidable (_ ∨ _))

theorem inside_iff {mem : Bytes} {pos n : Nat} (hn : n ≠ 0) :
    Inside mem pos n ↔ pos + n ≤ mem.length := or_iff_right hn

theorem readBytes_stop {mem : Bytes} {pos n : Nat} {b : Outcome.Stop ε} :
    (readBytes (ε := ε) mem pos n).stop = some b ↔ b = .outside ∧ ¬Inside mem pos n := by
  unfold readBytes Inside
  split
  · next h => simp [h]
  · next h =>
    split
    · next h0 => simp [h0]
    · next h0 => simp [h, h0]

/-- The little-endian word at `pos`. -/
def wordAt (mem : Bytes) (pos w : Nat) : Nat := leNat ((mem.drop pos).take w)

theorem readBytes_of_inside {mem : Bytes} {pos n : Nat} (h : Inside mem pos n) :
    ∃ hlen, readBytes (ε := ε) mem pos n = .ok ⟨(mem.drop pos).take n, hlen⟩ := by
  rcases h with rfl | h
  · refine ⟨rfl, ?_⟩
    unfold readBytes
    split <;> rfl
  · exact ⟨_, readBytes_eq_ok h⟩

theorem readBytes_ok_inside {mem : Bytes} {pos n : Nat} {bs : {bs : Bytes // bs.length = n}}
    (h : readBytes (ε := ε) mem pos n = .ok bs) :
    Inside mem pos n ∧ bs.1 = (mem.drop pos).take n := by
  by_cases hin : Inside mem pos n
  · obtain ⟨hlen, he⟩ := readBytes_of_inside (ε := ε) hin
    rw [he] at h
    cases h
    exact ⟨hin, rfl⟩
  · rw [Outcome.stop_eq_outside.mp (readBytes_stop.mpr ⟨rfl, hin⟩)] at h
    cases h

theorem readWord_stop {mem : Bytes} {pos w : Nat} {b : Outcome.Stop ε} :
    (readWord (ε := ε) mem pos w).stop = some b ↔ b = .outside ∧ ¬Inside mem pos w := by
  rw [readWord, Outcome.stop_bind, readBytes_stop]
  simp

theorem readWord_eq_ok {mem : Bytes} {pos w n : Nat} :
    readWord (ε := ε) mem pos w = .ok n ↔ Inside mem pos w ∧ n = wordAt mem pos w := by
  refine ⟨?_, ?_⟩
  · intro h
    obtain ⟨bs, hbs, hn⟩ := Outcome.bind_eq_ok h
    obtain ⟨hin, he⟩ := readBytes_ok_inside hbs
    cases hn
    exact ⟨hin, by rw [he, wordAt]⟩
  · intro hw
    obtain ⟨hin, rfl⟩ := hw
    obtain ⟨hlen, he⟩ := readBytes_of_inside (ε := ε) hin
    rw [readWord, he]
    rfl

theorem readWords_stop {mem : Bytes} {pos w n : Nat} {b : Outcome.Stop ε} :
    (readWords (ε := ε) mem pos w n).stop = some b ↔ b = .outside ∧ ¬Inside mem pos (w * n) := by
  rw [readWords, Outcome.stop_bind, readBytes_stop]
  simp

theorem readWords_eq_ok {mem : Bytes} {pos w n : Nat} {ns : {ns : List Nat // ns.length = n}} :
    readWords (ε := ε) mem pos w n = .ok ns ↔
      Inside mem pos (w * n) ∧ ns.1 = toWords w n ((mem.drop pos).take (w * n)) := by
  refine ⟨?_, ?_⟩
  · intro h
    obtain ⟨bs, hbs, hn⟩ := Outcome.bind_eq_ok h
    obtain ⟨hin, he⟩ := readBytes_ok_inside hbs
    cases hn
    exact ⟨hin, congrArg (toWords w n) he⟩
  · intro hw
    obtain ⟨hin, hns⟩ := hw
    obtain ⟨hlen, he⟩ := readBytes_of_inside (ε := ε) hin
    rw [readWords, he]
    exact congrArg Outcome.ok (Subtype.ext hns.symm)

theorem readWords_of_inside {mem : Bytes} {pos w n : Nat} (h : Inside mem pos (w * n)) :
    readWords (ε := ε) mem pos w n
      = .ok ⟨toWords w n ((mem.drop pos).take (w * n)), length_toWords _ _ _⟩ :=
  readWords_eq_ok.mpr ⟨h, rfl⟩

/-- A comparison reads outside or decides. -/
theorem sameAt_cases (f : UInt8 → UInt8) (mem cs : Bytes) (pos : Nat) :
    (sameAt (ε := ε) f mem cs pos).stop = some .outside ∨
      ∃ a, sameAt (ε := ε) f mem cs pos = .ok a := by
  induction cs generalizing pos with
  | nil => exact Or.inr ⟨true, rfl⟩
  | cons c cs ih =>
    rw [sameAt]
    cases hb : mem[pos]? with
    | none =>
      rw [readByte_eq_outside.mpr (List.getElem?_eq_none_iff.mp hb)]
      exact Or.inl rfl
    | some b =>
      rw [readByte_eq_ok.mpr hb, Outcome.ok_bind]
      split
      · exact ih (pos + 1)
      · exact Or.inr ⟨false, rfl⟩

theorem sameAt_ne_raised (f : UInt8 → UInt8) (mem cs : Bytes) (pos : Nat) (e : ε) :
    sameAt f mem cs pos ≠ .raised e := by
  intro h
  rcases sameAt_cases (ε := ε) f mem cs pos with hs | ⟨a, ha⟩
  · rw [h] at hs
    cases hs
  · rw [h] at ha
    cases ha

theorem sameAt_eq_true (f : UInt8 → UInt8) (mem cs : Bytes) (pos : Nat) :
    sameAt (ε := ε) f mem cs pos = .ok true ↔ cs.map f <+: (mem.drop pos).map f := by
  induction cs generalizing pos with
  | nil => simp [sameAt]
  | cons c cs ih =>
    rw [sameAt]
    cases hb : mem[pos]? with
    | none =>
      have hlen := List.getElem?_eq_none_iff.mp hb
      rw [readByte_eq_outside.mpr hlen, List.drop_eq_nil_of_le hlen]
      simp
    | some b =>
      have hd : mem.drop pos = b :: mem.drop (pos + 1) := by
        obtain ⟨hlt, he⟩ := List.getElem?_eq_some_iff.mp hb
        rw [← he]; exact List.drop_eq_getElem_cons hlt
      rw [readByte_eq_ok.mpr hb, Outcome.ok_bind, hd, List.map_cons, List.map_cons,
        List.cons_prefix_cons]
      split
      · next h => rw [ih, h]; simp
      · next h => simp [Ne.symm h]

/-- The comparison runs off the end exactly when the memory ends in the middle of a
match. -/
theorem sameAt_eq_outside (f : UInt8 → UInt8) {mem : Bytes} (cs : Bytes) (pos : Nat) :
    sameAt (ε := ε) f mem cs pos = .outside ↔
      (mem.drop pos).map f <+: cs.map f ∧ mem.length - pos < cs.length := by
  induction cs generalizing pos with
  | nil => simp [sameAt]
  | cons c cs ih =>
    rw [sameAt]
    cases hb : mem[pos]? with
    | none =>
      have hlen := List.getElem?_eq_none_iff.mp hb
      rw [readByte_eq_outside.mpr hlen, List.drop_eq_nil_of_le hlen]
      simp; omega
    | some b =>
      obtain ⟨hlt, he⟩ := List.getElem?_eq_some_iff.mp hb
      have hd : mem.drop pos = b :: mem.drop (pos + 1) := by
        rw [← he]; exact List.drop_eq_getElem_cons hlt
      rw [readByte_eq_ok.mpr hb, Outcome.ok_bind, hd, List.map_cons, List.map_cons,
        List.cons_prefix_cons, List.length_cons]
      split
      · next h =>
        rw [ih, h]
        refine ⟨?_, ?_⟩
        · rintro ⟨h1, h2⟩; exact ⟨⟨rfl, h1⟩, by omega⟩
        · rintro ⟨⟨-, h1⟩, h2⟩; exact ⟨h1, by omega⟩
      · next h => simp [h]

/-- With enough memory left a comparison decides whether the literal stands there. -/
theorem sameAt_of_le (f : UInt8 → UInt8) {mem : Bytes} {cs : Bytes} {pos : Nat}
    (h : pos + cs.length ≤ mem.length) :
    sameAt (ε := ε) f mem cs pos = .ok (decide (cs.map f <+: (mem.drop pos).map f)) := by
  rcases sameAt_cases (ε := ε) f mem cs pos with hs | ⟨a, hs⟩
  · have := ((sameAt_eq_outside f cs pos).mp (Outcome.stop_eq_outside.mp hs)).2
    omega
  · have htrue := sameAt_eq_true (ε := ε) f mem cs pos
    rw [hs, Outcome.ok.injEq] at htrue
    rw [hs, Bool.eq_iff_iff.mpr (htrue.trans decide_eq_true_iff.symm)]

/-- A string other than the literal is told apart from it, unless the memory ends within the
literal. -/
theorem sameAt_text_ne {f : UInt8 → UInt8} (hf : ∀ b, f b = 0 ↔ b = 0) {mem cs : Bytes}
    (hcs : (0 : UInt8) ∉ cs) (hend : ¬mem.map f <+: cs.map f)
    (hne : (mem.takeWhile (· ≠ 0)).map f ≠ cs.map f) :
    sameAt (ε := ε) f mem (cs ++ [0]) 0 = .ok false := by
  have hno : (0 : UInt8) ∉ cs.map f := by
    intro h
    obtain ⟨c, hc, h0⟩ := List.mem_map.mp h
    exact hcs ((hf c).mp h0 ▸ hc)
  rcases sameAt_cases (ε := ε) f mem (cs ++ [0]) 0 with hs | ⟨a, hs⟩
  · obtain ⟨hp, hlt⟩ := (sameAt_eq_outside f _ 0).mp (Outcome.stop_eq_outside.mp hs)
    simp only [List.drop_zero, List.map_append, List.length_append, List.length_singleton] at hp hlt
    have hp : mem.map f <+: cs.map f :=
      List.prefix_of_prefix_length_le hp (List.prefix_append _ _)
        (by simp only [List.length_map]; omega)
    exact absurd hp hend
  · cases a with
    | false => exact hs
    | true =>
      obtain ⟨t, ht⟩ := (sameAt_eq_true f _ _ _).mp hs
      rw [List.drop_zero, List.map_append, List.append_assoc] at ht
      have htake : (mem.takeWhile (· ≠ 0)).map f = (mem.map f).takeWhile (· ≠ 0) := by
        rw [List.takeWhile_map]
        congr 2
        funext b
        simp [hf b]
      refine absurd ?_ hne
      have hzero : [(0 : UInt8)].map f = [0] := congrArg (fun b => [b]) ((hf 0).mpr rfl)
      rw [htake, ← ht, hzero]
      exact takeWhile_ne_zero_append hno

/-! ### Writes and tables -/

/-- `bs` written to `pos`. -/
def writeBytes (mem : Bytes) (pos : Nat) (bs : Bytes) : Outcome ε Bytes :=
  if pos + bs.length ≤ mem.length then
    .ok (mem.take pos ++ bs ++ mem.drop (pos + bs.length))
  else .outside

/-- What is in front of `pos` stays, and so does what is behind. -/
theorem writeBytes_append {a b bs : Bytes} {pos : Nat} (hpos : pos = a.length)
    (h : bs.length ≤ b.length) :
    writeBytes (ε := ε) (a ++ b) pos bs = .ok (a ++ bs ++ b.drop bs.length) := by
  subst hpos
  unfold writeBytes
  rw [if_pos (by rw [List.length_append]; omega), List.take_left, List.drop_append,
    List.drop_eq_nil_of_le (Nat.le_add_right _ _), List.nil_append, Nat.add_sub_cancel_left]

theorem readBytes_append {a b c : Bytes} {pos n : Nat} (hpos : pos = a.length)
    (hn : b.length = n) : readBytes (ε := ε) (a ++ b ++ c) pos n = .ok ⟨b, hn⟩ := by
  subst hpos
  exact readBytes_of_at (at_middle a b c) hn

variable {α : Type}

/-- The entry `i` of a table. -/
def readEntry (t : List α) (i : Nat) : Outcome ε α :=
  match t[i]? with
  | some a => .ok a
  | none => .outside

def writeEntry (t : List α) (i : Nat) (a : α) : Outcome ε (List α) :=
  if i < t.length then .ok (t.set i a) else .outside

theorem readEntry_append {l r : List α} {a : α} {i : Nat} (hi : i = l.length) :
    readEntry (ε := ε) (l ++ a :: r) i = .ok a := by
  subst hi
  unfold readEntry
  rw [List.getElem?_append_right (Nat.le_refl _), Nat.sub_self]
  rfl

theorem writeEntry_append {l r : List α} {a b : α} {i : Nat} (hi : i = l.length) :
    writeEntry (ε := ε) (l ++ a :: r) i b = .ok (l ++ b :: r) := by
  subst hi
  unfold writeEntry
  rw [if_pos (by simp), List.set_append_right _ _ (Nat.le_refl _), Nat.sub_self]
  rfl

theorem readEntry_eq_ok {t : List α} {i : Nat} {a : α} :
    readEntry (ε := ε) t i = .ok a ↔ t[i]? = some a := by
  unfold readEntry
  cases t[i]? <;> simp

theorem readEntry_of_lt {t : List α} {i : Nat} (h : i < t.length) :
    readEntry (ε := ε) t i = .ok t[i] := readEntry_eq_ok.mpr (List.getElem?_eq_getElem h)

theorem readEntry_of_ge {t : List α} {i : Nat} (h : t.length ≤ i) :
    readEntry (ε := ε) t i = .outside := by
  rw [readEntry, List.getElem?_eq_none h]

theorem readEntry_ne_raised (t : List α) (i : Nat) (e : ε) : readEntry t i ≠ .raised e := by
  rcases Nat.lt_or_ge i t.length with h | h
  · rw [readEntry_of_lt h]
    exact fun hr => by cases hr
  · rw [readEntry_of_ge h]
    exact fun hr => by cases hr

/-- What is left of a table begins with the entry at its index. -/
theorem of_drop_eq_cons {t u : List α} {a : α} {i : Nat} (h : t.drop i = a :: u) :
    i < t.length ∧ t[i]? = some a ∧ t.drop (i + 1) = u := by
  have hi : i < t.length := by
    by_contra hge
    rw [List.drop_eq_nil_of_le (Nat.not_lt.mp hge)] at h
    cases h
  rw [List.drop_eq_getElem_cons hi] at h
  obtain ⟨ha, hu⟩ := List.cons.inj h
  exact ⟨hi, by rw [List.getElem?_eq_getElem hi, ha], hu⟩

theorem writeEntry_of_lt {t : List α} {i : Nat} (h : i < t.length) (a : α) :
    writeEntry (ε := ε) t i a = .ok (t.set i a) := if_pos h

theorem writeEntry_ne_raised (t : List α) (i : Nat) (a : α) (e : ε) :
    writeEntry t i a ≠ .raised e := by
  unfold writeEntry
  split
  · simp
  · simp

end Reads

end Mym
