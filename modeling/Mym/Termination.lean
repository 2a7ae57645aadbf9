import Mathlib.Logic.Relation
import Mym.Header

/-!
# Whether decoding comes to an end

After each element the decoders move on by a length they read from the object, modulo
`2 ^ 64`, and compare it with nothing.  A length close to `2 ^ 64` therefore moves them
back, and the next element can be the container that is being decoded.

`Terminates` asks for an end of the recursion and for nested decoders that only ever run
behind the containers they are nested in.  `terminates_iff` names the lengths that matter:
those that wrap round and land at or before the start of their container.  Without them the
start moves on with every nested call, which bounds the depth; and `loopBlob` has one.
-/

namespace Mym

section

variable (api : MxApi) (use32 : Bool) (mem : Bytes)

/-- While the decoder works on the container `c`, it calls itself on `d`. -/
def Nested (c d : Node) : Prop :=
  ∃ h k, nodeHead api use32 mem c = .ok (.container h) ∧ k < h.reach ∧
    AcceptsBefore api use32 mem h k ∧ ElementInside use32 mem h.first k ∧
    d = elementNode use32 mem h.first k

/-- What is wanted: an end, and no decoder that runs at or before the start of a container that
is still being decoded. -/
structure Terminates (root : Node) : Prop where
  ends : ∃ fuel, deserializeNode api use32 mem fuel root.1 root.2 ≠ .diverged
  behind : ∀ c d, Reached api use32 mem root c →
    Relation.TransGen (Nested api use32 mem) c d → c.2 < d.2

/-- Where the length of element `k` sends the decoder, before the reduction modulo `2 ^ 64`. -/
def jump (first k : Nat) : Nat :=
  elementPos use32 mem first k + uintWidth use32
    + wordAt mem (elementPos use32 mem first k) (uintWidth use32)

/-- No length that is reached wraps round to an element whose type byte is at or before the one
of its container. -/
def NoJumpBack (root : Node) : Prop :=
  ∀ c h k, Reached api use32 mem root c → nodeHead api use32 mem c = .ok (.container h) →
    k + 1 < h.reach → AcceptsBefore api use32 mem h (k + 1) →
    ElementInside use32 mem h.first (k + 1) →
    jump use32 mem h.first k < 2 ^ 64 ∨
      c.2 ≤ jump use32 mem h.first k % 2 ^ 64 + uintWidth use32

variable {api use32 mem}

theorem Reached.nested {root c d : Node} (h : Reached api use32 mem root c)
    (hn : Nested api use32 mem c d) : Reached api use32 mem root d := by
  obtain ⟨hd, k, hc, hk, hb, hin, rfl⟩ := hn
  exact h.element hc hk hb hin

theorem Nested.le_length {c d : Node} (h : Nested api use32 mem c d) : d.2 ≤ mem.length := by
  obtain ⟨hd, k, -, -, -, hin, rfl⟩ := h
  exact hin

/-! ### Calls and depth -/

theorem nodeHead_ne_diverged (c : Node) :
    (nodeHead api use32 mem c).stop ≠ some .diverged := by
  unfold nodeHead
  split
  · simp [Outcome.stop_bind, deserializeArray_stop]
  split
  · simp [Outcome.stop_bind, deserializeSparse_stop]
  split
  · simp [Outcome.stop_bind, structHead_stop]
  split
  · simp [Outcome.stop_bind, cellHead_stop]
  · simp

/-- A node ends one level above the nodes it calls. -/
theorem unroll_of_nested {n : Nat} {c : Node}
    (h : ∀ d, Nested api use32 mem c d →
      Outcome.unroll (nodeBody api use32 mem) n d ≠ .diverged) :
    Outcome.unroll (nodeBody api use32 mem) (n + 1) c ≠ .diverged := by
  intro hdiv
  rcases Outcome.stop_bind.mp (Outcome.stop_eq_diverged.mpr hdiv) with hhead | ⟨hd, hc, hstop⟩
  · exact nodeHead_ne_diverged c hhead
  · cases hd with
    | leaf v => cases hstop
    | container hd =>
      rcases (elements_stop (nodeHead_nfields hc)).mp hstop with
        ⟨k, hk, hroom, hall, ⟨hin, hd'⟩ | ⟨-, hb⟩ | ⟨-, -, hb⟩⟩ | ⟨-, hb, -⟩
      · refine h _ ⟨hd, k, hc, hk, ⟨hroom, fun j hj => ⟨(hall j hj).1, ?_⟩⟩, hin, rfl⟩
          (Outcome.stop_eq_diverged.mp hd')
        exact accepts_of_unroll (hall j hj).2.choose_spec
      · cases hb
      · cases hb
      · cases hb

/-- A node that ends has called nodes that end, one level below. -/
theorem Nested.unroll {n : Nat} {c d : Node} (h : Nested api use32 mem c d)
    (hc : Outcome.unroll (nodeBody api use32 mem) (n + 1) c ≠ .diverged) :
    Outcome.unroll (nodeBody api use32 mem) n d ≠ .diverged := by
  classical
  intro hdiv
  obtain ⟨hd, k, hhead, hk, hb, hin, rfl⟩ := h
  -- the first element that is cut off stops the loop
  have hex : ∃ j, Outcome.unroll (nodeBody api use32 mem) n
      (elementNode use32 mem hd.first j) = .diverged := ⟨k, hdiv⟩
  have hle := Nat.find_min' hex hdiv
  refine hc (Outcome.stop_eq_diverged.mp (Outcome.stop_bind.mpr (Or.inr ⟨_, hhead, ?_⟩)))
  have hroom := hb.1
  refine (elements_stop (nodeHead_nfields hhead)).mpr
    (Or.inl ⟨Nat.find hex, by omega, by omega, ?_, ?_⟩)
  · intro j hj
    obtain ⟨hjin, hacc⟩ := hb.2 j (by omega)
    obtain ⟨v, hv⟩ := accepts_iff.mp hacc
    refine ⟨hjin, v, ?_⟩
    rw [← decode_eq_of_unroll (Nat.find_min hex hj), hv]
  · refine Or.inl ⟨?_, Outcome.stop_eq_diverged.mpr (Nat.find_spec hex)⟩
    rcases Nat.lt_or_eq_of_le hle with hlt | heq
    · exact (hb.2 _ hlt).1
    · rw [heq]
      exact hin

theorem diverged_of_nested_self {c : Node} (h : Nested api use32 mem c c) (n : Nat) :
    Outcome.unroll (nodeBody api use32 mem) n c = .diverged := by
  induction n with
  | zero => rfl
  | succ n ih =>
    by_contra hne
    exact h.unroll hne ih

/-! ### Positions -/

theorem readNames_le {n p : Nat} {r : List CStr × Nat} (h : readNames mem n p = .ok r) :
    p ≤ r.2 := by
  induction n generalizing p r with
  | zero =>
    cases h
    exact Nat.le_refl _
  | succ n ih =>
    obtain ⟨s, -, h⟩ := Outcome.bind_eq_ok h
    obtain ⟨r', hr', h⟩ := Outcome.bind_eq_ok h
    cases h
    have := ih hr'
    show p ≤ r'.2
    omega

theorem nodeHead_first {c : Node} {h : ContainerHead}
    (hc : nodeHead api use32 mem c = .ok (.container h)) : c.2 ≤ h.first := by
  have hdims : ∀ {d}, readDims api use32 mem c.2 = .ok d → c.2 ≤ d.2 := by
    intro d hd
    obtain ⟨-, rfl⟩ := readDims_eq_ok.mp hd
    show c.2 ≤ dimsEnd use32 mem c.2
    unfold dimsEnd
    omega
  rcases nodeHead_container hc with hs | hs
  · obtain ⟨d, nelts, n, ss, q, hd, -, -, hss, rfl⟩ := structHead_ok hs
    have hbegin := hdims hd
    have hnames : d.2 + sizeofInt ≤ q := readNames_le hss
    show c.2 ≤ q
    omega
  · obtain ⟨d, nelts, hd, -, rfl⟩ := cellHead_ok hs
    exact hdims hd

/-- Element by element, the decoder stays behind the start of the container. -/
theorem NoJumpBack.lt_element {root c : Node} {h : ContainerHead} {k : Nat}
    (hno : NoJumpBack api use32 mem root) (hr : Reached api use32 mem root c)
    (hc : nodeHead api use32 mem c = .ok (.container h)) (hk : k < h.reach)
    (hb : AcceptsBefore api use32 mem h k) (hin : ElementInside use32 mem h.first k) :
    c.2 < (elementNode use32 mem h.first k).2 := by
  have hfirst := nodeHead_first hc
  induction k with
  | zero =>
    show c.2 < h.first + uintWidth use32 + 1
    omega
  | succ k ih =>
    show c.2 < jump use32 mem h.first k % 2 ^ 64 + uintWidth use32 + 1
    rcases hno c h k hr hc hk hb hin with hlt | hle
    · have hroom := hb.1
      have hk' := ih (by omega) ⟨by omega, fun j hj => hb.2 j (by omega)⟩ (hb.2 k (by omega)).1
      have hk' : c.2 < elementPos use32 mem h.first k + uintWidth use32 + 1 := hk'
      rw [Nat.mod_eq_of_lt hlt, jump]
      omega
    · omega

theorem NoJumpBack.lt_nested {root c d : Node} (hno : NoJumpBack api use32 mem root)
    (hr : Reached api use32 mem root c) (h : Nested api use32 mem c d) : c.2 < d.2 := by
  obtain ⟨hd, k, hc, hk, hb, hin, rfl⟩ := h
  exact hno.lt_element hr hc hk hb hin

/-- As the starts move on, the bytes behind them bound the depth. -/
theorem NoJumpBack.unroll {root : Node} (hno : NoJumpBack api use32 mem root) (m : Nat) {c : Node}
    (hr : Reached api use32 mem root c) (hm : mem.length - c.2 < m) :
    Outcome.unroll (nodeBody api use32 mem) m c ≠ .diverged := by
  induction m generalizing c with
  | zero => exact absurd hm (Nat.not_lt_zero _)
  | succ m ih =>
    refine unroll_of_nested fun d hd => ih (hr.nested hd) ?_
    have hlt := hno.lt_nested hr hd
    have hle := hd.le_length
    omega

/-- **When decoding comes to an end**, with every nested decoder behind its containers. -/
theorem terminates_iff {root : Node} :
    Terminates api use32 mem root ↔ NoJumpBack api use32 mem root := by
  refine ⟨?_, ?_⟩
  · intro h c hd k hr hc hk hb hin
    have hlt : c.2 < jump use32 mem hd.first k % 2 ^ 64 + uintWidth use32 + 1 :=
      h.behind c _ hr (.single ⟨hd, k + 1, hc, hk, hb, hin, rfl⟩)
    exact Or.inr (by omega)
  · intro hno
    refine ⟨⟨mem.length - root.2 + 1, ?_⟩, fun c d hr hcd => ?_⟩
    · rw [deserializeNode_eq_unroll]
      exact hno.unroll _ .root (Nat.lt_succ_self _)
    · have hall : Reached api use32 mem root d ∧ c.2 < d.2 := by
        induction hcd with
        | single h => exact ⟨hr.nested h, hno.lt_nested hr h⟩
        | tail _ h ih => exact ⟨ih.1.nested h, Nat.lt_trans ih.2 (hno.lt_nested ih.1 h)⟩
      exact hall.2

end

/-! ### A loop -/

/-- A 1-by-1 cell array whose element is a 2-by-1 cell array.  The first element of the latter is
an empty double, in front of which stands the length `2 ^ 64 - 41`: it leads to the length
in front of the inner cell array. -/
def loopBlob : Bytes :=
  idMatlab ++ [0] ++ [idCell] ++ wordBytes 8 [2, 1, 1]
    ++ leBytes 8 66 ++ [idCell] ++ wordBytes 8 [2, 2, 1]
    ++ leBytes 8 (2 ^ 64 - 41) ++ [idArray] ++ wordBytes 8 [2, 0, 0] ++ wordBytes 4 [6, 0]

/-- **A marked object on which the recursion never ends.** -/
theorem loopBlob_diverges :
    idMatlab ++ [0] <+: loopBlob ∧ loopBlob[4]? = some idCell ∧
      (∀ fuel, deserializeNode documentedApi false loopBlob fuel idCell 5 = .diverged) ∧
      ¬Terminates documentedApi false loopBlob (idCell, 5) := by
  have hinner : nodeHead documentedApi false loopBlob (idCell, 38)
      = .ok (.container { first := 62, nelts := 2, nfields := 1, room := 2, build := .cell [2, 1] }) :=
    rfl
  have houter : nodeHead documentedApi false loopBlob (idCell, 5)
      = .ok (.container { first := 29, nelts := 1, nfields := 1, room := 1, build := .cell [1, 1] }) :=
    rfl
  have hself : Nested documentedApi false loopBlob (idCell, 38) (idCell, 38) := by
    refine ⟨_, 1, hinner, by decide, ⟨by decide, ?_⟩, by decide, by decide⟩
    intro j hj
    obtain rfl : j = 0 := by omega
    exact ⟨by decide, .leaf rfl⟩
  have hroot : Nested documentedApi false loopBlob (idCell, 5) (idCell, 38) :=
    ⟨_, 0, houter, by decide, ⟨by decide, fun j hj => absurd hj (Nat.not_lt_zero j)⟩, by decide,
      by decide⟩
  have hloop : ∀ fuel, deserializeNode documentedApi false loopBlob fuel idCell 5 = .diverged := by
    intro fuel
    have heq : deserializeNode documentedApi false loopBlob fuel idCell 5 = _ :=
      deserializeNode_eq_unroll fuel (idCell, 5)
    rw [heq]
    cases fuel with
    | zero => rfl
    | succ fuel =>
      by_contra hne
      exact hroot.unroll hne (diverged_of_nested_self hself fuel)
  refine ⟨by decide, by decide, hloop, fun h => ?_⟩
  obtain ⟨fuel, hfuel⟩ := h.ends
  exact hfuel (hloop fuel)

end Mym
