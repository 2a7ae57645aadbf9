import Mym.Deserialize
import Mym.SerializeFormat

/-!
# The decoders read the format

Run on `encode w v`, where `w` is the width of its mode, `deserializeNode` returns `v`
with its missing children filled in (`deserializeNode_encode`).  The induction is on
the value: a container's decoder reaches each child with the pointer on the child's
own bytes, and the length in front of the child carries the pointer to the next one.

The decoders count elements with `int`s.  Where a container is too large for that the
decoder runs into undefined behaviour, in both modes alike; `expected` says which of
the two happens.

From this follow the round trip of the serializers and the agreement of the two modes.
-/

namespace Mym

open MxArray

theorem At.cast {mem bs : Bytes} {p q : Nat} (h : At mem p bs) (e : p = q) : At mem q bs :=
  e ▸ h

/-! ### Sizes -/

section

variable {api : MxApi} {use32 : Bool} {mem : Bytes}

theorem readUint_of_at {pos n : Nat} (h : At mem pos (leBytes (uintWidth use32) n))
    (hn : n < 256 ^ uintWidth use32) :
    readUint use32 mem pos = .ok (n, pos + uintWidth use32) := by
  rw [readUint, readWord_of_at h hn]
  rfl

theorem readUints_of_at {pos n : Nat} {ns : List Nat}
    (h : At mem pos (wordBytes (uintWidth use32) ns)) (hn : ∀ m ∈ ns, m < 256 ^ uintWidth use32)
    (hlen : ns.length = n) :
    readUints use32 mem pos n
      = .ok (⟨ns, hlen⟩, pos + (wordBytes (uintWidth use32) ns).length) := by
  rw [readUints, readWords_of_at h hn hlen, length_wordBytes, hlen]
  rfl

theorem MxApi.Creates.mxCalloc_dims (hapi : api.Creates) {dims : List Nat} (h : DimsFit dims) :
    api.mxCalloc dims.length sizeofWord = true :=
  hapi.mxCalloc (by have := h.2.1; rw [sizeofWord]; omega)

theorem readDims_of_at (hapi : api.Creates) {pos : Nat} {dims : List Nat} (hfit : DimsFit dims)
    (h : At mem pos (dimBytes (uintWidth use32) dims)) (hl : dims.length < 256 ^ uintWidth use32)
    (hd : ∀ d ∈ dims, d < 256 ^ uintWidth use32) :
    readDims api use32 mem pos = .ok (dims, pos + (dimBytes (uintWidth use32) dims).length) := by
  obtain ⟨h1, h2⟩ := at_append.mp h
  rw [length_leBytes] at h2
  rw [readDims, readUint_of_at h1 hl, Outcome.ok_bind]
  simp only [hapi.mxCalloc_dims hfit, if_true, readUints_of_at h2 hd rfl, Outcome.ok_bind, dimBytes,
    List.length_append, length_leBytes, Nat.add_assoc]

theorem foldl_mul_mod (dims : List Nat) (a : Nat) :
    dims.foldl (fun nelts d => nelts * d % 2 ^ 64) a % 2 ^ 64 = a * dims.prod % 2 ^ 64 := by
  induction dims generalizing a with
  | nil => simp
  | cons d dims ih =>
    rw [List.foldl_cons, ih, List.prod_cons, ← Nat.mul_assoc, Nat.mod_mul_mod]

theorem foldl_mul_mod_lt (dims : List Nat) {a : Nat} (h : a < 2 ^ 64) :
    dims.foldl (fun nelts d => nelts * d % 2 ^ 64) a < 2 ^ 64 := by
  induction dims generalizing a with
  | nil => exact h
  | cons d dims ih => exact ih (Nat.mod_lt _ (by decide))

theorem countElements_eq {dims : List Nat} (h : dims.length < 2 ^ 31) :
    countElements dims = .ok (dims.prod % 2 ^ 64) := by
  rw [countElements, if_pos h, ← Nat.one_mul dims.prod, ← foldl_mul_mod,
    Nat.mod_eq_of_lt (foldl_mul_mod_lt dims (by decide))]

theorem readNames_of_at {fields : List CStr} {p : Nat} (h : At mem p (nameBytes fields)) :
    readNames mem fields.length p = .ok (fields, p + (nameBytes fields).length) := by
  induction fields generalizing p with
  | nil => rfl
  | cons f fields ih =>
    have hsplit : nameBytes (f :: fields) = (f.1 ++ [0]) ++ nameBytes fields := rfl
    rw [hsplit] at h ⊢
    obtain ⟨h1, h2⟩ := at_append.mp h
    have hlen : p + (f.1 ++ [0]).length = p + f.1.length + 1 := by
      rw [List.length_append, List.length_singleton]; omega
    rw [List.length_cons, readNames, readCStr_of_at h1, Outcome.ok_bind,
      ih (h2.cast hlen), Outcome.ok_bind, List.length_append, ← Nat.add_assoc, hlen]

/-! ### Leaves -/

theorem deserializeArray_of_at (hapi : api.Creates) {pos : Nat} {a : FullArray}
    (h : At mem pos (fullBody (uintWidth use32) a)) (hs : Shaped (.full a))
    (hf : NodeFits (uintWidth use32) (.full a)) :
    deserializeArray api use32 mem pos = .ok (.full a) := by
  simp only [fullBody, List.append_assoc, at_append, length_leBytes] at h
  obtain ⟨hdim, hcls, hcpl, hre, him⟩ := h
  obtain ⟨c, hc, hsize⟩ := Option.map_eq_some_iff.mp hs.2.2
  have hid : a.classId = c.id := MxClass.ofId_eq_some hc
  have hnum : api.createNumeric a.dims a.classId (mxComplexity a.im) = some a.elementSize := by
    rw [hid, ← hsize]
    exact hapi.numeric (by rw [hsize, hs.1.1]; exact hs.2.1)
  have hlen : a.re.length = a.elementSize * (mxDims a.dims).prod := by rw [a.re_length, hs.1.1]
  rw [deserializeArray, readDims_of_at hapi hs.1 hdim hf.1 hf.2, Outcome.ok_bind]
  simp only [sizeofInt, readWord_of_at hcls (hid ▸ c.id_lt), Outcome.ok_bind,
    readWord_of_at hcpl (mxComplexity_lt a.im), hnum,
    readBytes_of_at (hre.cast (Nat.add_assoc _ 4 4)) hlen]
  cases hi : a.im with
  | none =>
    rw [if_neg (by decide)]
    apply congrArg (Outcome.ok ∘ MxArray.full)
    exact FullArray.ext rfl rfl hs.1.1 rfl hi.symm
  | some b =>
    rw [hi, Option.getD_some, hlen, Nat.add_assoc _ 4 4] at him
    rw [if_pos (mxComplexity_some b), readBytes_of_at him ((a.im_length b hi).trans hlen),
      Outcome.ok_bind]
    apply congrArg (Outcome.ok ∘ MxArray.full)
    exact FullArray.ext rfl rfl hs.1.1 rfl hi.symm

theorem sparseData_of_at {p : Nat} {a : SparseArray}
    (h : At mem p (wordBytes (uintWidth use32) a.jc ++ (wordBytes (uintWidth use32) a.ir ++
      (a.re ++ a.im.getD [])))) (hf : NodeFits (uintWidth use32) (.sparse a)) :
    sparseData use32 mem a.isLogical a.rows a.columns a.nzmax (mxComplexity a.im) p
      = .ok (.sparse a) := by
  simp only [at_append] at h
  obtain ⟨hjc, hir, hre, him⟩ := h
  obtain ⟨-, -, -, fjc, fir⟩ := hf
  rw [sparseData, readUints_of_at hjc fjc a.jc_length, Outcome.ok_bind]
  simp only [readUints_of_at hir fir a.ir_length, Outcome.ok_bind,
    readBytes_of_at hre a.re_length]
  cases hi : a.im with
  | none =>
    rw [if_neg (by decide)]
    apply congrArg (Outcome.ok ∘ MxArray.sparse)
    exact SparseArray.ext rfl rfl rfl rfl rfl rfl rfl hi.symm
  | some b =>
    rw [hi, Option.getD_some, a.re_length] at him
    have hl : a.isLogical ≠ true := by
      intro hl
      have := a.im_logical hl
      rw [hi] at this
      cases this
    have hb : b.length = (sparseClass a.isLogical).elementSize * a.nzmax :=
      (a.im_length b hi).trans a.re_length
    rw [if_pos (mxComplexity_some b), dif_neg hl, readBytes_of_at him hb, Outcome.ok_bind]
    apply congrArg (Outcome.ok ∘ MxArray.sparse)
    exact SparseArray.ext rfl rfl rfl rfl rfl rfl rfl hi.symm

theorem deserializeSparse_of_at (hapi : api.Creates) {pos : Nat} {a : SparseArray}
    (h : At mem pos (sparseBody (uintWidth use32) a)) (hs : Shaped (.sparse a))
    (hf : NodeFits (uintWidth use32) (.sparse a)) :
    deserializeSparse api use32 mem pos = .ok (.sparse a) := by
  simp only [sparseBody, List.append_assoc] at h
  obtain ⟨hr, h⟩ := at_append.mp h
  obtain ⟨hc, h⟩ := at_append.mp h
  obtain ⟨hn, h⟩ := at_append.mp h
  obtain ⟨hcls, h⟩ := at_append.mp h
  obtain ⟨hcpl, h⟩ := at_append.mp h
  simp only [length_leBytes] at hc hn hcls hcpl h
  have hlog : ((sparseClass a.isLogical).id == MxClass.logical.id) = a.isLogical := by
    cases a.isLogical <;> rfl
  rw [deserializeSparse, readUint_of_at hr hf.1, Outcome.ok_bind]
  simp only [sizeofInt, readUint_of_at hc hf.2.1, readUint_of_at hn hf.2.2.1, Outcome.ok_bind,
    readWord_of_at hcls (MxClass.id_lt _), readWord_of_at hcpl (mxComplexity_lt a.im), hlog,
    hapi.sparse hs.2.1 hs.2.2.1, if_true]
  exact sparseData_of_at (h.cast (Nat.add_assoc _ 4 4)) hf

/-! ### Children -/

/-- What a decoder makes of an encoded value: the value with its missing children filled in,
unless an `int` counter runs over on the way. -/
def expected (v : MxArray) : Result MxArray :=
  if v.All NodeCounts then .ok v.norm else .undefined

theorem expected_full (a : FullArray) : expected (.full a) = .ok (.full a) := if_pos trivial

theorem expected_sparse (a : SparseArray) : expected (.sparse a) = .ok (.sparse a) :=
  if_pos trivial

theorem allIn_counts_cons {o : Option MxArray} {vals : List (Option MxArray)} :
    AllIn NodeCounts (o :: vals) ↔ (child o).All NodeCounts ∧ AllIn NodeCounts vals := by
  cases o with
  | none => exact ⟨fun h => ⟨trivial, h⟩, fun h => h.2⟩
  | some v => exact Iff.rfl

variable {nested : UInt8 → Nat → Result MxArray}

/-- The nested decoder reads the children `vals`, wherever they stand. -/
def ReadsChildren (use32 : Bool) (mem : Bytes) (nested : UInt8 → Nat → Result MxArray)
    (vals : List (Option MxArray)) : Prop :=
  ∀ o ∈ vals, ∀ p, At mem p (body (uintWidth use32) (child o)) →
    nested (tag (child o)) p = expected (child o)

theorem elementStep_of_at (hmem : mem.length < 2 ^ 64) {p room : Nat} {o : Option MxArray}
    {acc : List (Option MxArray)} (hroom : acc.length < room)
    (h : At mem p (sized (uintWidth use32) (encode (uintWidth use32) (child o))))
    (hlen : (encode (uintWidth use32) (child o)).length < 256 ^ uintWidth use32)
    (hn : ReadsChildren use32 mem nested [o]) :
    elementStep use32 mem nested room (p, acc) = expected (child o) >>= fun v =>
      .ok (p + (sized (uintWidth use32) (encode (uintWidth use32) (child o))).length,
        acc ++ [some v]) := by
  obtain ⟨h1, h2⟩ := at_append.mp h
  rw [length_leBytes] at h2
  have hend := h2.le_length (List.cons_ne_nil _ _)
  obtain ⟨h3, h4⟩ := at_cons.mp h2
  rw [elementStep, readUint_of_at h1 hlen, Outcome.ok_bind]
  simp only [readByte_of_at h3, Outcome.ok_bind, hn o (List.mem_singleton_self o) _ h4]
  apply Outcome.bind_congr
  intro v _
  rw [if_pos hroom, Nat.mod_eq_of_lt (by omega), sized, List.length_append, length_leBytes, Nat.add_assoc]

/-- **The element loop reads the children.**  Child after child the pointer stands on the
bytes of the next one. -/
theorem iter_elementStep (hmem : mem.length < 2 ^ 64) {vals : List (Option MxArray)} {p room : Nat}
    {acc : List (Option MxArray)} (hroom : acc.length + vals.length ≤ room)
    (h : At mem p (childBytes (uintWidth use32) vals))
    (hlen : ∀ o ∈ vals, (encode (uintWidth use32) (child o)).length < 256 ^ uintWidth use32)
    (hn : ReadsChildren use32 mem nested vals) :
    Outcome.iter (elementStep use32 mem nested room) vals.length (p, acc)
      = if AllIn NodeCounts vals then
          .ok (p + (childBytes (uintWidth use32) vals).length, acc ++ normIn vals)
        else .undefined := by
  induction vals generalizing p acc with
  | nil => simp [AllIn, normIn]
  | cons o vals ih =>
    rw [childBytes_cons] at h
    obtain ⟨h1, h2⟩ := at_append.mp h
    rw [List.length_cons] at hroom
    have hstep : elementStep use32 mem nested room (p, acc) = _ :=
      elementStep_of_at hmem (by omega) h1 (hlen o (by simp))
        fun o' ho' => hn o' (by rw [List.mem_singleton.mp ho']; simp)
    rw [List.length_cons, Outcome.iter_succ, hstep, expected]
    by_cases hc : (child o).All NodeCounts
    · rw [if_pos hc, Outcome.ok_bind, Outcome.ok_bind,
        ih (by simp only [List.length_append, List.length_singleton]; omega) h2
          (fun o ho => hlen o (List.mem_cons_of_mem _ ho))
          (fun o ho => hn o (List.mem_cons_of_mem _ ho)),
        childBytes_cons, List.length_append, Nat.add_assoc, List.append_assoc]
      simp only [allIn_counts_cons, hc, true_and, normIn_eq_map, List.map_cons,
        List.singleton_append]
    · rw [if_neg hc, if_neg fun h => hc (allIn_counts_cons.mp h).1]
      rfl

theorem childBytes_append (w : Nat) (xs ys : List (Option MxArray)) :
    childBytes w (xs ++ ys) = childBytes w xs ++ childBytes w ys := by
  induction xs with
  | nil => rfl
  | cons o xs ih => rw [List.cons_append, childBytes_cons, childBytes_cons, ih, List.append_assoc]

/-- The two loops of a container, `nfields` children for each of `nelts` elements. -/
theorem forInt_elementStep (hmem : mem.length < 2 ^ 64) {vals : List (Option MxArray)}
    {p nelts nfields room : Nat} (hroom : vals.length ≤ room) (h : At mem p (childBytes (uintWidth use32) vals))
    (hlen : ∀ o ∈ vals, (encode (uintWidth use32) (child o)).length < 256 ^ uintWidth use32)
    (hn : ReadsChildren use32 mem nested vals) (hvals : vals.length = nelts * nfields) :
    Outcome.forInt nelts (Outcome.iter (elementStep use32 mem nested room) nfields) (p, [])
      = if nelts < 2 ^ 31 ∧ AllIn NodeCounts vals then
          .ok (p + (childBytes (uintWidth use32) vals).length, normIn vals)
        else .undefined := by
  unfold Outcome.forInt
  rw [Outcome.iter_iter, Outcome.iter_iter]
  split
  · next hlt =>
    rw [← hvals, iter_elementStep hmem (by rwa [List.length_nil, Nat.zero_add]) h hlen hn,
      List.nil_append]
    simp only [hlt, true_and]
  · next hge =>
    -- the counter runs over after 2 ^ 31 elements: these, too, are children
    have hk : 2 ^ 31 * nfields ≤ vals.length := by
      rw [hvals]; exact Nat.mul_le_mul_right _ (Nat.not_lt.mp hge)
    have hsub : ∀ o ∈ vals.take (2 ^ 31 * nfields), o ∈ vals := fun o ho => List.mem_of_mem_take ho
    have hat : At mem p (childBytes (uintWidth use32) (vals.take (2 ^ 31 * nfields))) := by
      rw [← List.take_append_drop (2 ^ 31 * nfields) vals, childBytes_append] at h
      exact (at_append.mp h).1
    have hsize : (vals.take (2 ^ 31 * nfields)).length ≤ room :=
      Nat.le_trans (List.length_take_le' _ _) hroom
    have hiter : Outcome.iter (elementStep use32 mem nested room) _ (p, []) = _ :=
      iter_elementStep hmem (by rwa [List.length_nil, Nat.zero_add]) hat
        (fun o ho => hlen o (hsub o ho)) (fun o ho => hn o (hsub o ho))
    rw [List.length_take_of_le hk] at hiter
    have hno : ¬(nelts < 2 ^ 31 ∧ AllIn NodeCounts vals) := fun h => hge h.1
    rw [if_neg hno, hiter]
    split <;> rfl

/-! ### Containers -/

theorem deserializeStruct_of_at (hapi : api.Creates) (hmem : mem.length < 2 ^ 64) {pos : Nat}
    {dims : List Nat} {fields : List CStr} {vals : List (Option MxArray)}
    (h : At mem pos (body (uintWidth use32) (.struct dims fields vals)))
    (hs : Shaped (.struct dims fields vals))
    (hf : NodeFits (uintWidth use32) (.struct dims fields vals))
    (hn : ReadsChildren use32 mem nested vals) :
    deserializeStruct api use32 mem nested pos = expected (.struct dims fields vals) := by
  obtain ⟨hfit, hprod, hfields, -, hvals⟩ := hs
  simp only [body, List.append_assoc, at_append, length_leBytes] at h
  obtain ⟨hdim, hnf, hnames, hch⟩ := h
  have hint : toInt32 fields.length = fields.length := if_pos hfields
  have hcount : ((fields.length : Int) % 2 ^ 64).toNat = fields.length := by omega
  have hcalloc : api.mxCalloc fields.length sizeofWord = true :=
    hapi.mxCalloc (by rw [sizeofWord]; omega)
  rw [deserializeStruct, readDims_of_at hapi hfit hdim hf.1.1 hf.1.2, Outcome.ok_bind, expected]
  by_cases hd : dims.length < 2 ^ 31
  · simp only [countElements_eq hd, Outcome.ok_bind, sizeofInt,
      readWord_of_at hnf (Nat.lt_trans hfields (by decide)), hint, hcount, hcalloc, Int.toNat_natCast,
      readNames_of_at hnames, hapi.struct, if_true, Nat.mod_eq_of_lt hprod, hfit.1,
      funext (Outcome.forInt_of_lt hfields (elementStep use32 mem nested _)),
      forInt_elementStep hmem (Nat.le_of_eq hvals) hch hf.2 hn hvals]
    simp only [All, NodeCounts, hd, true_and]
    split
    · rfl
    · rfl
  · have hc : ¬ (MxArray.struct dims fields vals).All NodeCounts := fun hc => hd hc.1.1
    simp only [countElements, if_neg hd, Outcome.undefined_bind, if_neg hc]

theorem deserializeCell_of_at (hapi : api.Creates) (hmem : mem.length < 2 ^ 64) {pos : Nat}
    {dims : List Nat} {vals : List (Option MxArray)}
    (h : At mem pos (body (uintWidth use32) (.cell dims vals))) (hs : Shaped (.cell dims vals))
    (hf : NodeFits (uintWidth use32) (.cell dims vals))
    (hn : ReadsChildren use32 mem nested vals) :
    deserializeCell api use32 mem nested pos = expected (.cell dims vals) := by
  obtain ⟨hfit, hprod, hvals⟩ := hs
  obtain ⟨hdim, hch⟩ := at_append.mp h
  have hloop := forInt_elementStep hmem (Nat.le_of_eq hvals) hch hf.2 hn
    (hvals.trans (Nat.mul_one _).symm)
  rw [show Outcome.iter (elementStep use32 mem nested dims.prod) 1
      = elementStep use32 mem nested dims.prod from
    funext (Outcome.iter_one _)] at hloop
  rw [deserializeCell, readDims_of_at hapi hfit hdim hf.1.1 hf.1.2, Outcome.ok_bind, expected]
  by_cases hd : dims.length < 2 ^ 31
  · simp only [countElements_eq hd, Outcome.ok_bind, hapi.cell, if_true, Nat.mod_eq_of_lt hprod,
      hfit.1, hloop]
    simp only [All, NodeCounts, hd, true_and]
    split
    · rfl
    · rfl
  · have hc : ¬ (MxArray.cell dims vals).All NodeCounts := fun hc => hd hc.1.1
    simp only [countElements, if_neg hd, Outcome.undefined_bind, if_neg hc]

/-! ### Nodes -/

theorem length_encode_lt_of_mem {w : Nat} {vals : List (Option MxArray)} {o : Option MxArray}
    (h : o ∈ vals) : (encode w (child o)).length ≤ (childBytes w vals).length := by
  induction vals with
  | nil => cases h
  | cons o' vals ih =>
    rw [childBytes_cons, List.length_append, sized, List.length_append]
    rcases List.mem_cons.mp h with rfl | h
    · omega
    · have := ih h
      omega

theorem all_child {p : MxArray → Prop} {vals : List (Option MxArray)} {o : Option MxArray}
    (hp : p (.full emptyDouble)) (h : AllIn p vals) (ho : o ∈ vals) : (child o).All p := by
  cases o with
  | none => exact hp
  | some v => exact allIn_iff.mp h v ho

theorem nodeFits_emptyDouble : NodeFits (uintWidth use32) (.full emptyDouble) := by
  cases use32 <;> decide

/-- **The decoders read the format**: started behind the type byte of an encoded value, the
decoder for that type byte returns the value. -/
theorem deserializeNode_encode (hapi : api.Creates) (hmem : mem.length < 2 ^ 64) (v : MxArray)
    (hk : v.All NodeKnown) (hs : v.All Shaped) (hf : v.All (NodeFits (uintWidth use32)))
    {pos fuel : Nat} (h : At mem pos (body (uintWidth use32) v))
    (hfuel : (encode (uintWidth use32) v).length ≤ fuel) :
    deserializeNode api use32 mem fuel (tag v) pos = expected v := by
  induction hn : (encode (uintWidth use32) v).length using Nat.strong_induction_on
    generalizing v pos fuel with
  | _ n ih =>
    subst hn
    have hpos : 0 < (encode (uintWidth use32) v).length := by simp [encode]
    obtain ⟨fuel, rfl⟩ := Nat.exists_eq_succ_of_ne_zero (by omega : fuel ≠ 0)
    have hchildren : ∀ vals : List (Option MxArray),
        (childBytes (uintWidth use32) vals).length < (encode (uintWidth use32) v).length →
        AllIn NodeKnown vals → AllIn Shaped vals → AllIn (NodeFits (uintWidth use32)) vals →
        ReadsChildren use32 mem (deserializeNode api use32 mem fuel) vals := by
      intro vals hlt hk hs hf o ho p hp
      have hle := length_encode_lt_of_mem (w := uintWidth use32) ho
      exact ih _ (by omega) (child o) (all_child trivial hk ho)
        (all_child (by decide) hs ho) (all_child nodeFits_emptyDouble hf ho) hp (by omega) rfl
    cases v with
    | full a =>
      rw [expected_full]
      exact deserializeArray_of_at hapi h hs hf
    | sparse a =>
      rw [expected_sparse]
      exact deserializeSparse_of_at hapi h hs hf
    | struct dims fields vals =>
      refine deserializeStruct_of_at hapi hmem h hs.1 hf.1 (hchildren vals ?_ hk.2 hs.2 hf.2)
      simp only [encode, body, List.length_cons, List.length_append]
      omega
    | cell dims vals =>
      refine deserializeCell_of_at hapi hmem h hs.1 hf.1 (hchildren vals ?_ hk.2 hs.2 hf.2)
      simp only [encode, body, List.length_cons, List.length_append]
      omega
    | other c => exact absurd hk id

/-! ### The root -/

/-- What a serializer puts in front of the root. -/
def marked (w : Nat) (v : MxArray) : Bytes := idMatlab ++ [0] ++ encode w v

theorem isTag_tag {v : MxArray} (h : NodeKnown v) : isTag (tag v) = true := by
  cases v with
  | other c => exact absurd h id
  | _ => rfl

variable (use32) in
/-- `deserialize` on a marked encoding: no compression, not rejected, and then the decoder
of the root. -/
theorem deserialize_marked (hapi : api.Creates) (zlib : Zlib) (v : MxArray)
    (hk : v.All NodeKnown) (hs : v.All Shaped) (hf : v.All (NodeFits (uintWidth use32)))
    (hmem : mem.length < 2 ^ 64) (h : At mem 0 (marked (uintWidth use32) v)) (n : Nat) :
    deserialize api zlib use32 (some mem) n = expected v >>= fun v => .ok (.value v) := by
  obtain ⟨hhead, henc⟩ := at_append.mp h
  obtain ⟨hm, -⟩ := at_cons.mp hhead
  obtain ⟨htag, hbody⟩ := at_cons.mp henc
  have hle := henc.le_length (List.cons_ne_nil _ _)
  have hz : strcmpEq mem 0 zlibId = .ok false := sameAt_of_head_ne id hm (by decide)
  have hd : strcasecmpEq mem 0 dj0Id = .ok false := sameAt_of_head_ne toLower hm (by decide)
  have hy : strcmpEq mem 0 idMatlab = .ok true := sameAt_of_at id hhead
  have hnode : deserializeNode api use32 mem (mem.length + 1) (tag v) _ = _ :=
    deserializeNode_encode hapi hmem v hk hs hf hbody (by omega)
  simp only [deserialize, inflate, hz, Outcome.ok_bind, Bool.false_eq_true, if_false,
    deserializeBuffer, hd, hy, if_true]
  have hstart : idMatlab.length + 1 = 0 + (idMatlab ++ [0]).length := rfl
  rw [hstart, readByte_of_at htag, Outcome.ok_bind, if_pos (isTag_tag hk.node), hnode, expected]
  by_cases hc : v.All NodeCounts
  · rw [if_pos hc]; rfl
  · rw [if_neg hc]; rfl

end

/-! ### The round trip -/

/-- A finite MATLAB value: every node has a shape MATLAB can give it, and a class the
serializers know. -/
structure MxTree where
  val : MxArray
  shaped : val.All Shaped
  known : val.All NodeKnown

theorem nodeFits_of_dimsFit {dims : List Nat} (h : DimsFit dims) :
    dims.length < 256 ^ 8 ∧ ∀ d ∈ dims, d < 256 ^ 8 :=
  ⟨Nat.lt_trans h.2.1 (by decide), h.2.2⟩

/-- A value whose encoding fits the address space has only sizes that fit eight bytes. -/
theorem fits_of_shaped (v : MxArray) (hs : v.All Shaped) (hlen : (encode 8 v).length < 2 ^ 64) :
    v.All (NodeFits 8) := by
  have hchild : ∀ {vals : List (Option MxArray)}, (childBytes 8 vals).length < 2 ^ 64 →
      ∀ o ∈ vals, (encode 8 (child o)).length < 256 ^ 8 := fun hlt o ho =>
    Nat.lt_of_le_of_lt (length_encode_lt_of_mem ho) hlt
  induction v using MxArray.ind with
  | full a => exact nodeFits_of_dimsFit hs.1
  | sparse a =>
    obtain ⟨hr, hc, hn, hjc, hir⟩ := hs
    exact ⟨hr, Nat.lt_trans hc (by decide), Nat.lt_trans hn (by decide), hjc, hir⟩
  | struct dims fields vals ih =>
    have hlt : (childBytes 8 vals).length < 2 ^ 64 := by
      simp only [encode, body, List.length_cons, List.length_append] at hlen
      omega
    refine ⟨⟨nodeFits_of_dimsFit hs.1.1, hchild hlt⟩, allIn_iff.mpr fun v hv => ?_⟩
    exact ih v hv (allIn_iff.mp hs.2 v hv) (hchild hlt (some v) hv)
  | cell dims vals ih =>
    have hlt : (childBytes 8 vals).length < 2 ^ 64 := by
      simp only [encode, body, List.length_cons, List.length_append] at hlen
      omega
    refine ⟨⟨nodeFits_of_dimsFit hs.1.1, hchild hlt⟩, allIn_iff.mpr fun v hv => ?_⟩
    exact ih v hv (allIn_iff.mp hs.2 v hv) (hchild hlt (some v) hv)
  | other c => trivial

/-- The serializer for `{M}` at the root, with and without the preamble `u`, writes the
marked encoding, unless the root is sparse. -/
theorem serialize_root (v : MxArray) (hk : v.All NodeKnown) (hl : v.All NodeLoops)
    (hroot : v.tag ≠ idSparse) (outer : Serializer → MxArray → Result Serial) (rest : Bytes) :
    ∃ s : Serializer, getSerialFct (phMatlab :: rest) v = .ok (s, true) ∧
      getSerialFct (preNoCompression :: phMatlab :: rest) v = .ok (s, false) ∧
      s.run outer v = .ok (.of (marked 8 v)) := by
  cases v with
  | full a => exact ⟨.array, rfl, rfl, serializeFull_eq a true⟩
  | sparse a => exact absurd rfl hroot
  | struct dims fields vals => exact ⟨.struct, rfl, rfl, serializeStruct_eq hk hl true⟩
  | cell dims vals => exact ⟨.cell, rfl, rfl, serializeCell_eq hk hl true⟩
  | other c => exact absurd hk id

/-- **Reading back what was written.**  For a value with a full, struct or cell root, the
serializer that `{M}` and `{uM}` choose returns bytes on which `deserialize` gives the value
back, with a 0-by-0 double for each missing child, whatever stands in memory behind them. -/
theorem deserialize_serialize {api : MxApi} (hapi : api.Creates) (zlib : Zlib)
    (outer : Serializer → MxArray → Result Serial) (v : MxTree) (hroot : v.val.tag ≠ idSparse)
    (hl : v.val.All NodeLoops) (rest : Bytes) :
    ∃ (s : Serializer) (p : Serial), getSerialFct (phMatlab :: rest) v.val = .ok (s, true) ∧
      getSerialFct (preNoCompression :: phMatlab :: rest) v.val = .ok (s, false) ∧
      s.run outer v.val = .ok p ∧ p.rnBytes = p.bytes.length ∧
      ∀ behind : Bytes, (p.bytes ++ behind).length < 2 ^ 64 →
        deserialize api zlib false (some (p.bytes ++ behind)) p.rnBytes
          = .ok (.value v.val.norm) := by
  obtain ⟨s, h1, h2, h3⟩ := serialize_root v.val v.known hl hroot outer rest
  refine ⟨s, _, h1, h2, h3, rfl, fun behind hlen => ?_⟩
  have henc : (encode 8 v.val).length < 2 ^ 64 := by
    simp only [Serial.of, marked, List.length_append] at hlen
    omega
  have hread := deserialize_marked false hapi zlib v.val v.known v.shaped
    (fits_of_shaped v.val v.shaped henc) hlen (at_start (marked 8 v.val) behind)
    (marked 8 v.val).length
  rw [expected, if_pos (All.imp (fun _ => NodeLoops.counts) _ hl)] at hread
  exact hread

/-- A complex 2-by-1 sparse matrix with one entry. -/
def sampleSparse : SparseArray where
  isLogical := false
  rows := 2
  columns := 1
  nzmax := 1
  jc := [0, 1]
  ir := [1]
  re := [0, 0, 0, 0, 0, 0, 240, 63]
  im := some [0, 0, 0, 0, 0, 0, 0, 64]
  jc_length := rfl
  ir_length := rfl
  re_length := rfl
  im_length := by simp
  im_logical := by simp

/-- The char array `hi`. -/
def sampleText : FullArray where
  classId := MxClass.char.id
  elementSize := 2
  dims := [1, 2]
  re := [104, 0, 105, 0]
  im := none
  re_length := rfl
  im_length := by simp

/-- A 1-by-3 cell array that holds a struct array with two fields, one of them sparse and
one missing, a char array, and a missing element. -/
def sampleTree : MxTree where
  val := .cell [1, 3]
    [some (.struct [1, 1] [⟨[97], by decide⟩, ⟨[98, 99], by decide⟩]
      [some (.sparse sampleSparse), none]), some (.full sampleText), none]
  shaped := by decide
  known := by decide

theorem deserialize_serialize_sample :
    ∃ (s : Serializer) (p : Serial), getSerialFct [77, 125] sampleTree.val = .ok (s, true) ∧
      getSerialFct [117, 77, 125] sampleTree.val = .ok (s, false) ∧
      s.run (fun _ _ => .undefined) sampleTree.val = .ok p ∧ p.rnBytes = p.bytes.length ∧
      ∀ behind : Bytes, (p.bytes ++ behind).length < 2 ^ 64 →
        deserialize documentedApi runZlib false (some (p.bytes ++ behind)) p.rnBytes
          = .ok (.value sampleTree.val.norm) :=
  deserialize_serialize documentedApi_creates runZlib (fun _ _ => .undefined) sampleTree
    (by decide) (by decide) [125]

end Mym
