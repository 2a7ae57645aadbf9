import Mym.Deserialize
import Mym.Lib.Recursion

/-!
# How the nested decoders move through the bytes

A nested decoder reads its header (`nodeHead`), and a container then visits its elements.
Where the elements stand is a matter of the bytes alone: each begins with a length, and
the next one begins that much further on, modulo `2 ^ 64` (`elementPos`).

`decode` is the decoder with enough fuel for its memory: a decoder starts behind a byte of
the memory, so `unroll_stable` leaves nothing for a greater depth to do (`unroll_decode`),
and `decode` satisfies the equation of the unbounded recursion (`decode_eq`).

The decoder visits the elements in order and goes no further when one of them ends without
a value.  `Accepts` says of a node that all of it is visited, `Reached` of a node that the
decoder gets to it, and `StopsAt` that it ends right there: `decode_stop` states that the
decoder stops with an ending exactly when it reaches a node that stops with this ending.
-/

namespace Mym

/-- A type byte and the offset behind it. -/
abbrev Node := UInt8 × Nat

/-- What a container announces before its elements. -/
structure ContainerHead where
  first : Nat
  nelts : Nat
  nfields : Nat
  /-- how many children the array that has been created can hold -/
  room : Nat
  build : List (Option MxArray) → MxArray

/-- The number of elements the loops get to before the `int` counter runs over. -/
def ContainerHead.reach (h : ContainerHead) : Nat := min h.nelts (2 ^ 31) * h.nfields

inductive NodeHead where
  | leaf (v : MxArray)
  | container (h : ContainerHead)

section

variable (api : MxApi) (use32 : Bool) (mem : Bytes)

/-! ### Headers -/

def structHead (pos : Nat) : Result ContainerHead := do
  let (pdims, p) ← readDims api use32 mem pos
  let nelts ← countElements pdims
  let n ← readWord mem p sizeofInt
  let p := p + sizeofInt
  if api.mxCalloc (toInt32 n % 2 ^ 64).toNat sizeofWord then
    let nfields := (toInt32 n).toNat
    let (fieldNames, p) ← readNames mem nfields p
    if api.createStruct pdims fieldNames then
      .ok { first := p, nelts, nfields, room := (mxDims pdims).prod * nfields,
            build := .struct (mxDims pdims) fieldNames }
    else .raised .matlab
  else .raised .matlab

def cellHead (pos : Nat) : Result ContainerHead := do
  let (pdims, p) ← readDims api use32 mem pos
  let nelts ← countElements pdims
  if api.createCell pdims then
    .ok { first := p, nelts, nfields := 1, room := (mxDims pdims).prod,
          build := .cell (mxDims pdims) }
  else .raised .matlab

/-- A leaf as a whole, or the header of a container. -/
def nodeHead (c : Node) : Result NodeHead :=
  if c.1 = idArray then deserializeArray api use32 mem c.2 >>= fun v => .ok (.leaf v)
  else if c.1 = idSparse then deserializeSparse api use32 mem c.2 >>= fun v => .ok (.leaf v)
  else if c.1 = idStruct then structHead api use32 mem c.2 >>= fun h => .ok (.container h)
  else if c.1 = idCell then cellHead api use32 mem c.2 >>= fun h => .ok (.container h)
  else .raised .unknownType

/-- The element loops. -/
def elements (nested : Node → Result MxArray) (h : ContainerHead) : Result MxArray := do
  let s ← Outcome.forInt h.nelts
    (Outcome.forInt h.nfields (elementStep use32 mem (fun tag pos => nested (tag, pos)) h.room))
    (h.first, [])
  .ok (h.build s.2)

def nodeBody (nested : Node → Result MxArray) (c : Node) : Result MxArray :=
  nodeHead api use32 mem c >>= fun
    | .leaf v => .ok v
    | .container h => elements use32 mem nested h

variable {api use32 mem}

theorem deserializeStruct_eq (nested : Node → Result MxArray) (pos : Nat) :
    deserializeStruct api use32 mem (fun tag pos => nested (tag, pos)) pos
      = structHead api use32 mem pos >>= elements use32 mem nested := by
  simp only [deserializeStruct, structHead, Outcome.bind_assoc]
  refine Outcome.bind_congr fun d _ => Outcome.bind_congr fun nelts _ =>
    Outcome.bind_congr fun n _ => ?_
  split
  · rw [Outcome.bind_assoc]
    apply Outcome.bind_congr
    intro ss _
    split
    · rfl
    · rfl
  · rfl

theorem deserializeCell_eq (nested : Node → Result MxArray) (pos : Nat) :
    deserializeCell api use32 mem (fun tag pos => nested (tag, pos)) pos
      = cellHead api use32 mem pos >>= elements use32 mem nested := by
  simp only [deserializeCell, cellHead, Outcome.bind_assoc]
  refine Outcome.bind_congr fun d _ => Outcome.bind_congr fun nelts _ => ?_
  split
  · rw [Outcome.ok_bind, elements, funext (Outcome.forInt_of_lt (by decide : 1 < 2 ^ 31) _),
      funext (Outcome.iter_one _)]
  · rfl

theorem deserializeNode_eq_unroll (n : Nat) (c : Node) :
    deserializeNode api use32 mem n c.1 c.2 = Outcome.unroll (nodeBody api use32 mem) n c := by
  induction n generalizing c with
  | zero => rfl
  | succ n ih =>
    have hrec : deserializeNode api use32 mem n
        = fun tag pos => Outcome.unroll (nodeBody api use32 mem) n (tag, pos) := by
      funext tag pos
      exact ih (tag, pos)
    show _ = nodeBody api use32 mem (Outcome.unroll (nodeBody api use32 mem) n) c
    rw [deserializeNode, hrec, nodeBody, nodeHead, deserializeStruct_eq, deserializeCell_eq]
    repeat' split
    all_goals simp only [Outcome.bind_assoc, Outcome.ok_bind, Outcome.bind_ok, Outcome.raised_bind]

/-! ### Enough fuel -/

theorem nodeBody_mono : Outcome.Mono (nodeBody api use32 mem) := by
  intro f g h c
  refine (Outcome.Approx.refl _).bind fun
    | .leaf v => Outcome.Approx.refl _
    | .container hd => ?_
  refine (Outcome.Approx.forInt (fun s => ?_) hd.nelts _).bind fun s => Outcome.Approx.refl _
  refine Outcome.Approx.forInt (fun s => ?_) hd.nfields s
  refine (Outcome.Approx.refl _).bind fun n => (Outcome.Approx.refl _).bind fun tag => ?_
  exact (h (tag, _)).bind fun v => Outcome.Approx.refl _

/-- The nodes a decoder can be started at: behind a byte of the memory. -/
def nodeAt (mem : Bytes) (i : Fin mem.length) : Node := (mem[i], i + 1)

theorem nodeBody_congr {f g : Node → Result MxArray}
    (h : ∀ i, f (nodeAt mem i) = g (nodeAt mem i)) :
    nodeBody api use32 mem f = nodeBody api use32 mem g := by
  have hstep : (elementStep use32 mem fun tag pos => f (tag, pos))
      = elementStep use32 mem fun tag pos => g (tag, pos) := by
    funext room s
    refine Outcome.bind_congr fun n _ => Outcome.bind_congr fun tag htag => ?_
    obtain ⟨hlt, he⟩ := List.getElem?_eq_some_iff.mp (readByte_eq_ok.mp htag)
    rw [← he]
    exact congrArg (· >>= _) (h ⟨_, hlt⟩)
  funext c
  rw [nodeBody, nodeBody]
  simp only [elements, hstep]

variable (api use32 mem) in
/-- The nested decoder, deep enough for its memory. -/
def decode (c : Node) : Result MxArray := deserializeNode api use32 mem (mem.length + 1) c.1 c.2

theorem unroll_decode {n : Nat} (hn : mem.length + 1 ≤ n) :
    Outcome.unroll (nodeBody api use32 mem) n = decode api use32 mem := by
  rw [Outcome.unroll_stable nodeBody_mono (fun _ _ => nodeBody_congr) hn]
  funext c
  exact (deserializeNode_eq_unroll _ c).symm

/-- The equation of the recursion. -/
theorem decode_eq : decode api use32 mem = nodeBody api use32 mem (decode api use32 mem) := by
  calc decode api use32 mem
      = Outcome.unroll (nodeBody api use32 mem) (mem.length + 1 + 1) :=
        (unroll_decode (Nat.le_succ _)).symm
    _ = nodeBody api use32 mem (Outcome.unroll (nodeBody api use32 mem) (mem.length + 1)) := rfl
    _ = nodeBody api use32 mem (decode api use32 mem) := by rw [unroll_decode (Nat.le_refl _)]

theorem decode_eq_of_unroll {n : Nat} {c : Node}
    (h : Outcome.unroll (nodeBody api use32 mem) n c ≠ .diverged) :
    decode api use32 mem c = Outcome.unroll (nodeBody api use32 mem) n c := by
  rw [← unroll_decode (Nat.le_max_left (mem.length + 1) n)]
  exact Outcome.unroll_eq_of_le nodeBody_mono (Nat.le_max_right _ _) h

/-! ### The elements -/

section

variable (use32 mem)

/-- Where element `k` begins, with its length. -/
def elementPos (first : Nat) : Nat → Nat
  | 0 => first
  | k + 1 =>
    let p := elementPos first k
    (p + uintWidth use32 + wordAt mem p (uintWidth use32)) % 2 ^ 64

/-- The length and the type byte of element `k` lie in the memory. -/
def ElementInside (first k : Nat) : Prop :=
  elementPos use32 mem first k + uintWidth use32 < mem.length

instance (first k : Nat) : Decidable (ElementInside use32 mem first k) :=
  inferInstanceAs (Decidable (_ < _))

/-- The node that element `k` holds. -/
def elementNode (first k : Nat) : Node :=
  let p := elementPos use32 mem first k + uintWidth use32
  (mem[p]?.getD 0, p + 1)

end

theorem elementStep_inside {nested : Node → Result MxArray} {first k room : Nat}
    (h : ElementInside use32 mem first k) (acc : List (Option MxArray)) :
    elementStep use32 mem (fun tag pos => nested (tag, pos)) room
        (elementPos use32 mem first k, acc)
      = nested (elementNode use32 mem first k) >>= fun v =>
          if acc.length < room then .ok (elementPos use32 mem first (k + 1), acc ++ [some v])
          else .undefined := by
  have hbyte := List.getElem?_eq_getElem h
  rw [elementStep, readUint, readWord, readBytes_eq_ok (Nat.le_of_lt h)]
  simp only [readByte_eq_ok.mpr hbyte, Outcome.ok_bind, elementNode, hbyte, Option.getD_some]
  rfl

theorem elementStep_outside {nested : Node → Result MxArray} {first k room : Nat}
    (h : ¬ElementInside use32 mem first k) (acc : List (Option MxArray)) :
    elementStep use32 mem (fun tag pos => nested (tag, pos)) room
        (elementPos use32 mem first k, acc)
      = .outside := by
  have hle : mem.length ≤ elementPos use32 mem first k + uintWidth use32 := Nat.not_lt.mp h
  rw [elementStep, readUint, readWord]
  by_cases hw : elementPos use32 mem first k + uintWidth use32 ≤ mem.length
  · rw [readBytes_eq_ok hw]
    simp only [Outcome.ok_bind, readByte_eq_outside.mpr hle, Outcome.outside_bind]
  · have hpos : uintWidth use32 ≠ 0 := by cases use32 <;> decide
    have hno : ¬Inside mem (elementPos use32 mem first k) (uintWidth use32) := fun hin =>
      hw ((inside_iff hpos).mp hin)
    rw [Outcome.stop_eq_outside.mp (readBytes_stop.mpr ⟨rfl, hno⟩)]
    rfl

/-- Element `k` is inside the memory and its decoder returns. -/
def ElementOk (use32 : Bool) (mem : Bytes) (nested : Node → Result MxArray) (first k : Nat) :
    Prop :=
  ElementInside use32 mem first k ∧ ∃ v, nested (elementNode use32 mem first k) = .ok v

/-- What `k` passes of an element loop have done. -/
theorem iter_element {nested : Node → Result MxArray} {first k room : Nat}
    {t : Nat × List (Option MxArray)}
    (h : Outcome.iter (elementStep use32 mem (fun tag pos => nested (tag, pos)) room) k (first, [])
      = .ok t) :
    t.1 = elementPos use32 mem first k ∧ t.2.length = k ∧ k ≤ room ∧
      ∀ j < k, ElementOk use32 mem nested first j := by
  induction k generalizing t with
  | zero =>
    cases h
    exact ⟨rfl, rfl, Nat.zero_le _, fun j hj => absurd hj (Nat.not_lt_zero j)⟩
  | succ k ih =>
    rw [Outcome.iter_succ_last] at h
    obtain ⟨⟨p, acc⟩, h1, h2⟩ := Outcome.bind_eq_ok h
    obtain ⟨rfl, hlen, -, hall⟩ := ih h1
    have hlen : acc.length = k := hlen
    by_cases hin : ElementInside use32 mem first k
    · rw [elementStep_inside hin, hlen] at h2
      obtain ⟨v, hv, ht⟩ := Outcome.bind_eq_ok h2
      split at ht
      · next hroom =>
        cases ht
        refine ⟨rfl, by rw [List.length_append, hlen]; rfl, hroom, fun j hj => ?_⟩
        rcases Nat.lt_succ_iff_lt_or_eq.mp hj with hlt | rfl
        · exact hall j hlt
        · exact ⟨hin, v, hv⟩
      · cases ht
    · rw [elementStep_outside hin] at h2
      cases h2

/-- An element loop gets through elements that return, as far as there is room for them. -/
theorem iter_of_elements {nested : Node → Result MxArray} {first k room : Nat} (hroom : k ≤ room)
    (h : ∀ j < k, ElementOk use32 mem nested first j) :
    ∃ acc, acc.length = k ∧
      Outcome.iter (elementStep use32 mem (fun tag pos => nested (tag, pos)) room) k (first, [])
        = .ok (elementPos use32 mem first k, acc) := by
  induction k with
  | zero => exact ⟨[], rfl, rfl⟩
  | succ k ih =>
    obtain ⟨acc, hlen, hacc⟩ := ih (Nat.le_of_succ_le hroom) fun j hj => h j (Nat.lt_succ_of_lt hj)
    obtain ⟨hin, v, hv⟩ := h k (Nat.lt_succ_self k)
    rw [Outcome.iter_succ_last, hacc, Outcome.ok_bind, elementStep_inside hin, hv, Outcome.ok_bind,
      if_pos (hlen ▸ hroom)]
    exact ⟨_, by rw [List.length_append, hlen]; rfl, rfl⟩

/-- How the loop stops at element `k`: inside it, in front of it, or with no room to set it. -/
def ElementStops (use32 : Bool) (mem : Bytes) (nested : Node → Result MxArray) (first room k : Nat)
    (b : Outcome.Stop MexError) : Prop :=
  (ElementInside use32 mem first k ∧ (nested (elementNode use32 mem first k)).stop = some b) ∨
    (¬ElementInside use32 mem first k ∧ b = .outside) ∨
    (ElementOk use32 mem nested first k ∧ k = room ∧ b = .undefined)

theorem elementStep_stop {nested : Node → Result MxArray} {first k room : Nat} (hroom : k ≤ room)
    {acc : List (Option MxArray)} (hacc : acc.length = k) {b : Outcome.Stop MexError} :
    (elementStep use32 mem (fun tag pos => nested (tag, pos)) room
        (elementPos use32 mem first k, acc)).stop = some b ↔
      ElementStops use32 mem nested first room k b := by
  rw [ElementStops, ElementOk]
  by_cases hin : ElementInside use32 mem first k
  · rw [elementStep_inside hin, Outcome.stop_bind, hacc]
    rcases Nat.lt_or_eq_of_le hroom with hlt | rfl
    · simp [hin, hlt, Nat.ne_of_lt hlt]
    · simp [hin, eq_comm (a := b)]
  · rw [elementStep_outside hin]
    simp [hin]

theorem toInt32_lt {n : Nat} (h : n < 2 ^ 32) : (toInt32 n).toNat < 2 ^ 31 := by
  unfold toInt32
  split <;> omega

theorem readWord_lt {ε : Type} {pos w n : Nat} (h : readWord (ε := ε) mem pos w = .ok n) :
    n < 256 ^ w := by
  obtain ⟨bs, -, hn⟩ := Outcome.bind_eq_ok h
  cases hn
  have := leNat_lt bs.1
  rwa [bs.2] at this

/-- What a struct announces, and where its elements begin. -/
theorem structHead_ok {pos : Nat} {h : ContainerHead} (hs : structHead api use32 mem pos = .ok h) :
    ∃ d nelts n ss q, readDims api use32 mem pos = .ok d ∧ countElements d.1 = .ok nelts ∧
      readWord (ε := MexError) mem d.2 sizeofInt = .ok n ∧
      readNames mem (toInt32 n).toNat (d.2 + sizeofInt) = .ok (ss, q) ∧
      h = ⟨q, nelts, (toInt32 n).toNat, (mxDims d.1).prod * (toInt32 n).toNat,
        .struct (mxDims d.1) ss⟩ := by
  obtain ⟨d, hd, hs⟩ := Outcome.bind_eq_ok hs
  obtain ⟨nelts, hnelts, hs⟩ := Outcome.bind_eq_ok hs
  obtain ⟨n, hn, hs⟩ := Outcome.bind_eq_ok hs
  dsimp only at hs
  split at hs
  · obtain ⟨⟨ss, q⟩, hss, hs⟩ := Outcome.bind_eq_ok hs
    dsimp only at hs
    split at hs
    · cases hs
      exact ⟨d, nelts, n, ss, q, hd, hnelts, hn, hss, rfl⟩
    · cases hs
  · cases hs

theorem cellHead_ok {pos : Nat} {h : ContainerHead} (hs : cellHead api use32 mem pos = .ok h) :
    ∃ d nelts, readDims api use32 mem pos = .ok d ∧ countElements d.1 = .ok nelts ∧
      h = ⟨d.2, nelts, 1, (mxDims d.1).prod, .cell (mxDims d.1)⟩ := by
  obtain ⟨d, hd, hs⟩ := Outcome.bind_eq_ok hs
  obtain ⟨nelts, hnelts, hs⟩ := Outcome.bind_eq_ok hs
  split at hs
  · cases hs
    exact ⟨d, nelts, hd, hnelts, rfl⟩
  · cases hs

theorem nodeHead_container {c : Node} {h : ContainerHead}
    (hc : nodeHead api use32 mem c = .ok (.container h)) :
    structHead api use32 mem c.2 = .ok h ∨ cellHead api use32 mem c.2 = .ok h := by
  unfold nodeHead at hc
  split at hc
  · obtain ⟨v, -, hv⟩ := Outcome.bind_eq_ok hc
    cases hv
  split at hc
  · obtain ⟨v, -, hv⟩ := Outcome.bind_eq_ok hc
    cases hv
  split at hc
  · obtain ⟨h', hs, hv⟩ := Outcome.bind_eq_ok hc
    cases hv
    exact Or.inl hs
  split at hc
  · obtain ⟨h', hs, hv⟩ := Outcome.bind_eq_ok hc
    cases hv
    exact Or.inr hs
  · cases hc

/-- The number of fields is what an `int` holds. -/
theorem nodeHead_nfields {c : Node} {h : ContainerHead}
    (hc : nodeHead api use32 mem c = .ok (.container h)) : h.nfields < 2 ^ 31 := by
  rcases nodeHead_container hc with hs | hs
  · obtain ⟨d, nelts, n, ss, q, -, -, hn, -, rfl⟩ := structHead_ok hs
    exact toInt32_lt (readWord_lt hn)
  · obtain ⟨d, nelts, -, -, rfl⟩ := cellHead_ok hs
    exact (by decide : 1 < 2 ^ 31)

/-- The element loops return exactly when the outer counter stays in range, there is room for
the elements and every element returns. -/
theorem elements_eq_ok {nested : Node → Result MxArray} {h : ContainerHead}
    (hf : h.nfields < 2 ^ 31) :
    (∃ v, elements use32 mem nested h = .ok v) ↔
      h.nelts < 2 ^ 31 ∧ h.reach ≤ h.room ∧
        ∀ k < h.reach, ElementOk use32 mem nested h.first k := by
  rw [elements, funext (Outcome.forInt_of_lt hf _), Outcome.forInt, ContainerHead.reach]
  by_cases hn : h.nelts < 2 ^ 31
  · rw [if_pos hn, Outcome.iter_iter, Nat.min_eq_left (Nat.le_of_lt hn)]
    refine ⟨?_, ?_⟩
    · intro hw
      obtain ⟨v, hv⟩ := hw
      obtain ⟨t, ht, -⟩ := Outcome.bind_eq_ok hv
      exact ⟨hn, (iter_element ht).2.2⟩
    · intro hw
      obtain ⟨-, hroom, hall⟩ := hw
      obtain ⟨acc, -, hacc⟩ := iter_of_elements hroom hall
      exact ⟨_, by rw [hacc, Outcome.ok_bind]⟩
  · rw [if_neg hn]
    refine ⟨?_, ?_⟩
    · intro hw
      obtain ⟨v, hv⟩ := hw
      obtain ⟨t, ht, -⟩ := Outcome.bind_eq_ok hv
      obtain ⟨t', -, ht'⟩ := Outcome.bind_eq_ok ht
      cases ht'
    · exact fun hor => absurd hor.1 hn

/-- The element loops stop at the first element that does not return or finds no room, or when
the outer counter runs over. -/
theorem elements_stop {nested : Node → Result MxArray} {h : ContainerHead}
    (hf : h.nfields < 2 ^ 31) {b : Outcome.Stop MexError} :
    (elements use32 mem nested h).stop = some b ↔
      (∃ k < h.reach, k ≤ h.room ∧ (∀ j < k, ElementOk use32 mem nested h.first j) ∧
        ElementStops use32 mem nested h.first h.room k b) ∨
      (2 ^ 31 ≤ h.nelts ∧ b = .undefined ∧ h.reach ≤ h.room ∧
        ∀ k < h.reach, ElementOk use32 mem nested h.first k) := by
  have hiter : ∀ n, (Outcome.iter (elementStep use32 mem (fun tag pos => nested (tag, pos)) h.room)
        n (h.first, [])).stop = some b ↔
      ∃ k < n, k ≤ h.room ∧ (∀ j < k, ElementOk use32 mem nested h.first j) ∧
        ElementStops use32 mem nested h.first h.room k b := by
    intro n
    rw [Outcome.iter_stop]
    refine exists_congr fun k => and_congr_right fun _ => ?_
    refine ⟨?_, ?_⟩
    · intro hw
      obtain ⟨⟨p, acc⟩, ht, hb⟩ := hw
      obtain ⟨rfl, hlen, hroom, hall⟩ := iter_element ht
      exact ⟨hroom, hall, (elementStep_stop hroom hlen).mp hb⟩
    · intro hw
      obtain ⟨hroom, hall, hb⟩ := hw
      obtain ⟨acc, hlen, hacc⟩ := iter_of_elements hroom hall
      exact ⟨_, hacc, (elementStep_stop hroom hlen).mpr hb⟩
  rw [elements, funext (Outcome.forInt_of_lt hf _), Outcome.stop_bind, Outcome.forInt,
    ContainerHead.reach]
  by_cases hn : h.nelts < 2 ^ 31
  · rw [if_pos hn, Outcome.iter_iter, Nat.min_eq_left (Nat.le_of_lt hn), hiter]
    refine ⟨?_, ?_⟩
    · intro hor
      rcases hor with hk | ⟨t, -, ht⟩
      · exact Or.inl hk
      · cases ht
    · intro hor
      rcases hor with hk | ⟨hge, -⟩
      · exact Or.inl hk
      · exact absurd hn (Nat.not_lt.mpr hge)
  · have hge := Nat.not_lt.mp hn
    rw [if_neg hn, Outcome.iter_iter, Nat.min_eq_right hge, Outcome.stop_bind, hiter]
    refine ⟨?_, ?_⟩
    · intro hor
      rcases hor with (hk | ⟨t, ht, hb⟩) | ⟨t, -, ht⟩
      · exact Or.inl hk
      · exact Or.inr ⟨hge, (Option.some.inj hb).symm, (iter_element ht).2.2⟩
      · cases ht
    · intro hor
      rcases hor with hk | ⟨-, rfl, hroom, hall⟩
      · exact Or.inl (Or.inl hk)
      · obtain ⟨acc, -, hacc⟩ := iter_of_elements hroom hall
        exact Or.inl (Or.inr ⟨_, hacc, rfl⟩)

/-! ### Nodes that are reached -/

section

variable (api use32 mem)

/-- The node has a header the decoder accepts, and so has every node under it. -/
inductive Accepts : Node → Prop
  | leaf {c : Node} {v : MxArray} (h : nodeHead api use32 mem c = .ok (.leaf v)) : Accepts c
  | container {c : Node} {h : ContainerHead} (hc : nodeHead api use32 mem c = .ok (.container h))
      (hn : h.nelts < 2 ^ 31) (hroom : h.reach ≤ h.room)
      (hin : ∀ k < h.reach, ElementInside use32 mem h.first k)
      (hk : ∀ k < h.reach, Accepts (elementNode use32 mem h.first k)) : Accepts c

/-- Everything in front of element `k` is accepted and has been set. -/
def AcceptsBefore (h : ContainerHead) (k : Nat) : Prop :=
  k ≤ h.room ∧ ∀ j < k, ElementInside use32 mem h.first j ∧
    Accepts api use32 mem (elementNode use32 mem h.first j)

/-- The decoder started at `root` gets to the node. -/
inductive Reached (root : Node) : Node → Prop
  | root : Reached root root
  | element {c : Node} {h : ContainerHead} {k : Nat} (hr : Reached root c)
      (hc : nodeHead api use32 mem c = .ok (.container h)) (hk : k < h.reach)
      (hb : AcceptsBefore api use32 mem h k) (hin : ElementInside use32 mem h.first k) :
      Reached root (elementNode use32 mem h.first k)

/-- The decoder started at `root` gets to element `k` of a container with header `h`. -/
def ReachesElement (root : Node) (h : ContainerHead) (k : Nat) : Prop :=
  ∃ c, Reached api use32 mem root c ∧ nodeHead api use32 mem c = .ok (.container h) ∧
    k < h.reach ∧ AcceptsBefore api use32 mem h k

/-- The node stops by itself: in its header, at an element that does not lie in the memory, at one
for which there is no room, or because a counter runs over. -/
def StopsAt (b : Outcome.Stop MexError) (c : Node) : Prop :=
  (nodeHead api use32 mem c).stop = some b ∨
    ∃ h, nodeHead api use32 mem c = .ok (.container h) ∧
      ((∃ k < h.reach, AcceptsBefore api use32 mem h k ∧
          ¬ElementInside use32 mem h.first k ∧ b = .outside) ∨
        (b = .undefined ∧ h.room < h.reach ∧ AcceptsBefore api use32 mem h h.room ∧
          ElementInside use32 mem h.first h.room ∧
          Accepts api use32 mem (elementNode use32 mem h.first h.room)) ∨
        (2 ^ 31 ≤ h.nelts ∧ b = .undefined ∧ AcceptsBefore api use32 mem h h.reach))

end

theorem Reached.trans {a c d : Node} (h : Reached api use32 mem a c)
    (h' : Reached api use32 mem c d) : Reached api use32 mem a d := by
  induction h' with
  | root => exact h
  | element _ hc hk hb hin ih => exact .element ih hc hk hb hin

theorem accepts_of_unroll {n : Nat} {c : Node} {v : MxArray}
    (h : Outcome.unroll (nodeBody api use32 mem) n c = .ok v) : Accepts api use32 mem c := by
  induction n generalizing c v with
  | zero => cases h
  | succ n ih =>
    obtain ⟨hd, hc, hv⟩ := Outcome.bind_eq_ok h
    cases hd with
    | leaf v => exact .leaf hc
    | container hd =>
      obtain ⟨hn, hroom, hall⟩ := (elements_eq_ok (nodeHead_nfields hc)).mp ⟨v, hv⟩
      refine .container hc hn hroom (fun k hk => (hall k hk).1) fun k hk => ?_
      obtain ⟨-, w, hw⟩ := hall k hk
      exact ih hw

/-- The decoder returns exactly on the nodes that are accepted. -/
theorem accepts_iff {c : Node} : Accepts api use32 mem c ↔ ∃ v, decode api use32 mem c = .ok v := by
  refine ⟨?_, ?_⟩
  · intro h
    induction h with
    | leaf h =>
      rw [decode_eq, nodeBody, h]
      exact ⟨_, rfl⟩
    | container hc hn hroom hin _ ih =>
      rw [decode_eq, nodeBody, hc]
      exact (elements_eq_ok (nodeHead_nfields hc)).mpr ⟨hn, hroom, fun k hk => ⟨hin k hk, ih k hk⟩⟩
  · intro hw
    obtain ⟨v, hv⟩ := hw
    rw [← unroll_decode (Nat.le_refl _)] at hv
    exact accepts_of_unroll hv

theorem acceptsBefore_iff {h : ContainerHead} {k : Nat} : AcceptsBefore api use32 mem h k ↔
    k ≤ h.room ∧ ∀ j < k, ElementOk use32 mem (decode api use32 mem) h.first j :=
  and_congr_right fun _ => forall_congr' fun _ => imp_congr_right fun _ =>
    and_congr_right fun _ => accepts_iff

/-- A node that stops by itself is one on which the decoder stops. -/
theorem StopsAt.decode {b : Outcome.Stop MexError} {c : Node} (h : StopsAt api use32 mem b c) :
    (decode api use32 mem c).stop = some b := by
  rw [decode_eq, nodeBody, Outcome.stop_bind]
  rcases h with h | ⟨hd, hc, h⟩
  · exact Or.inl h
  · refine Or.inr ⟨_, hc, (elements_stop (nodeHead_nfields hc)).mpr ?_⟩
    rcases h with ⟨k, hk, hb, hin, rfl⟩ | ⟨rfl, hk, hb, hin, hacc⟩ | ⟨hn, rfl, hb⟩
    · obtain ⟨hroom, hall⟩ := acceptsBefore_iff.mp hb
      exact Or.inl ⟨k, hk, hroom, hall, Or.inr (Or.inl ⟨hin, rfl⟩)⟩
    · obtain ⟨hroom, hall⟩ := acceptsBefore_iff.mp hb
      exact Or.inl ⟨_, hk, hroom, hall, Or.inr (Or.inr ⟨⟨hin, accepts_iff.mp hacc⟩, rfl, rfl⟩)⟩
    · exact Or.inr ⟨hn, rfl, acceptsBefore_iff.mp hb⟩

/-- What a node that is reached stops with, the root stops with. -/
theorem Reached.decode {b : Outcome.Stop MexError} {root c : Node}
    (h : Reached api use32 mem root c) (hb : (decode api use32 mem c).stop = some b) :
    (Mym.decode api use32 mem root).stop = some b := by
  induction h with
  | root => exact hb
  | element _ hc hk hbefore hin ih =>
    refine ih ?_
    rw [decode_eq, nodeBody, Outcome.stop_bind]
    obtain ⟨hroom, hall⟩ := acceptsBefore_iff.mp hbefore
    exact Or.inr ⟨_, hc, (elements_stop (nodeHead_nfields hc)).mpr
      (Or.inl ⟨_, hk, hroom, hall, Or.inl ⟨hin, hb⟩⟩)⟩

theorem stopsAt_of_unroll {b : Outcome.Stop MexError} (hb : b ≠ .diverged) {n : Nat} {root : Node}
    (h : (Outcome.unroll (nodeBody api use32 mem) n root).stop = some b) :
    ∃ c, Reached api use32 mem root c ∧ StopsAt api use32 mem b c := by
  induction n generalizing root with
  | zero => exact absurd (Option.some.inj h).symm hb
  | succ n ih =>
    have haccepts : ∀ {hd : ContainerHead} {k : Nat}, k ≤ hd.room →
        (∀ j < k, ElementOk use32 mem (Outcome.unroll (nodeBody api use32 mem) n) hd.first j) →
        AcceptsBefore api use32 mem hd k := fun hroom hall =>
      ⟨hroom, fun j hj => ⟨(hall j hj).1, accepts_of_unroll (hall j hj).2.choose_spec⟩⟩
    rcases Outcome.stop_bind.mp h with h | ⟨hd, hc, h⟩
    · exact ⟨root, .root, Or.inl h⟩
    · cases hd with
      | leaf v => cases h
      | container hd =>
        rcases (elements_stop (nodeHead_nfields hc)).mp h with
          ⟨k, hk, hroom, hall, ⟨hin, hstop⟩ | ⟨hin, rfl⟩ | ⟨⟨hin, v, hv⟩, rfl, rfl⟩⟩ |
            ⟨hn, rfl, hroom, hall⟩
        · obtain ⟨c, hr, hs⟩ := ih hstop
          exact ⟨c, (Reached.element .root hc hk (haccepts hroom hall) hin).trans hr, hs⟩
        · exact ⟨root, .root, Or.inr ⟨hd, hc, Or.inl ⟨k, hk, haccepts hroom hall, hin, rfl⟩⟩⟩
        · exact ⟨root, .root, Or.inr ⟨hd, hc, Or.inr (Or.inl ⟨rfl, hk, haccepts hroom hall, hin,
            accepts_of_unroll hv⟩)⟩⟩
        · exact ⟨root, .root, Or.inr ⟨hd, hc, Or.inr (Or.inr ⟨hn, rfl, haccepts hroom hall⟩)⟩⟩

/-- **The decoder stops where it reaches a node that stops.** -/
theorem decode_stop {b : Outcome.Stop MexError} (hb : b ≠ .diverged) {root : Node} :
    (decode api use32 mem root).stop = some b ↔
      ∃ c, Reached api use32 mem root c ∧ StopsAt api use32 mem b c := by
  refine ⟨?_, ?_⟩
  · intro h
    rw [← unroll_decode (Nat.le_refl _)] at h
    exact stopsAt_of_unroll hb h
  · intro hw
    obtain ⟨c, hr, hs⟩ := hw
    exact hr.decode hs.decode

end

end Mym
