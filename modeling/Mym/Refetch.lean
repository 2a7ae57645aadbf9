import Mym.Storable
import Mym.Walk

/-!
# What has been fetched can be stored again

Whatever bytes `deserialize` is given, a value that it makes of them is well formed
(`deserialize_wellFormed`): its dimensions agree with its elements, its classes are known, and no element
is empty.  So it can be stored for an M placeholder, and is fetched as itself (`refetch`), also when it came
from a database with 32-bit dimensions.

What the bytes cannot be held to is in `NodeHolds`: they may announce cell arrays with more elements than an
address space has room for, and names that no `int` can count.
-/

namespace Mym

open MxArray

/-- What MATLAB holds: the elements of an array can be counted, and so can the fields of all
elements and the letters of a name. -/
def NodeHolds : MxArray → Prop
  | .struct dims fields _ => dims.prod < 2 ^ 64 ∧ (∀ f ∈ fields, f.1.length < 2 ^ 31) ∧
      fields.length * dims.prod < 2 ^ 31
  | .cell dims _ => dims.prod < 2 ^ 64
  | _ => True

/-- Only arrays of the known classes are created. -/
def MxApi.Known (api : MxApi) : Prop := ∀ {dims c x s}, api.createNumeric dims c x = some s →
  (MxClass.ofId c).map MxClass.elementSize = some s

structure WellFormed (v : MxArray) : Prop where
  shaped : v.All Shaped
  known : v.All NodeKnown
  loops : v.All NodeLoops
  full : v.norm = v

section

variable {api : MxApi} {use32 : Bool} {mem : Bytes}

/-! ### Numbers -/

theorem pow_uintWidth_le : 256 ^ uintWidth use32 ≤ 2 ^ 64 := by
  cases use32
  · exact Nat.le_refl _
  · exact (by decide : 256 ^ 4 ≤ 2 ^ 64)

theorem readUint_lt {pos : Nat} {r : Nat × Nat} (h : readUint use32 mem pos = .ok r) :
    r.1 < 2 ^ 64 := by
  obtain ⟨n, hn, hr⟩ := Outcome.bind_eq_ok h
  cases hr
  exact Nat.lt_of_lt_of_le (readWord_lt hn) pow_uintWidth_le

theorem readUints_lt {pos n : Nat} {r : {ns : List Nat // ns.length = n} × Nat}
    (h : readUints use32 mem pos n = .ok r) : ∀ m ∈ r.1.1, m < 2 ^ 64 := by
  obtain ⟨ns, hns, hr⟩ := Outcome.bind_eq_ok h
  cases hr
  intro m hm
  rw [(readWords_eq_ok.mp hns).2] at hm
  exact Nat.lt_of_lt_of_le (toWords_lt _ _ _ m hm) pow_uintWidth_le

/-- The dimensions that an array gets from those that are read. -/
theorem readDims_fit {pos : Nat} {r : List Nat × Nat} (h : readDims api use32 mem pos = .ok r) :
    DimsFit (mxDims r.1) := by
  obtain ⟨⟨ndims, p⟩, hn, h⟩ := Outcome.bind_eq_ok h
  dsimp only at h
  split at h
  · next hcalloc =>
    obtain ⟨⟨pdims, q⟩, hd, h⟩ := Outcome.bind_eq_ok h
    cases h
    have hfits := api.mxCalloc_fits hcalloc
    have hlen := length_mxDims_le pdims.1
    rw [sizeofWord] at hfits
    rw [pdims.2] at hlen
    have hshort : (mxDims pdims.1).length < 2 ^ 60 := by omega
    refine ⟨mxDims_mxDims _, hshort, fun d hd' => ?_⟩
    rcases mem_mxDims hd' with rfl | rfl | hmem
    · decide
    · decide
    · exact readUints_lt hd d hmem
  · cases h

/-! ### Leaves -/

theorem wellFormed_full {a : FullArray} (h : Shaped (.full a)) : WellFormed (.full a) :=
  ⟨h, trivial, trivial, rfl⟩

theorem wellFormed_sparse {a : SparseArray} (h : Shaped (.sparse a)) : WellFormed (.sparse a) :=
  ⟨h, trivial, trivial, rfl⟩

theorem deserializeArray_wellFormed (hknown : api.Known) {pos : Nat} {v : MxArray}
    (h : deserializeArray api use32 mem pos = .ok v) : WellFormed v := by
  obtain ⟨⟨pdims, p⟩, hd, h⟩ := Outcome.bind_eq_ok h
  obtain ⟨classId, -, h⟩ := Outcome.bind_eq_ok h
  obtain ⟨complexity, -, h⟩ := Outcome.bind_eq_ok h
  dsimp only at h
  split at h
  · cases h
  · next elementSize hcreate =>
    have hshaped : DimsFit (mxDims pdims) ∧ elementSize * (mxDims pdims).prod < 2 ^ 63 ∧
        (MxClass.ofId classId).map MxClass.elementSize = some elementSize :=
      ⟨readDims_fit hd, api.numeric_fits hcreate, hknown hcreate⟩
    obtain ⟨re, -, h⟩ := Outcome.bind_eq_ok h
    split at h
    · obtain ⟨im, -, h⟩ := Outcome.bind_eq_ok h
      cases h
      exact wellFormed_full hshaped
    · cases h
      exact wellFormed_full hshaped

theorem deserializeSparse_wellFormed {pos : Nat} {v : MxArray}
    (h : deserializeSparse api use32 mem pos = .ok v) : WellFormed v := by
  obtain ⟨⟨rows, p⟩, hrows, h⟩ := Outcome.bind_eq_ok h
  obtain ⟨⟨columns, p⟩, -, h⟩ := Outcome.bind_eq_ok h
  obtain ⟨⟨nzmax, p⟩, -, h⟩ := Outcome.bind_eq_ok h
  obtain ⟨classId, -, h⟩ := Outcome.bind_eq_ok h
  obtain ⟨complexity, -, h⟩ := Outcome.bind_eq_ok h
  dsimp only at h
  split at h
  · next hcreate =>
    obtain ⟨hcolumns, hnzmax⟩ := api.sparse_fits hcreate
    obtain ⟨⟨jc, q⟩, hjc, h⟩ := Outcome.bind_eq_ok h
    obtain ⟨⟨ir, q⟩, hir, h⟩ := Outcome.bind_eq_ok h
    obtain ⟨re, -, h⟩ := Outcome.bind_eq_ok h
    have hshaped : rows < 2 ^ 64 ∧ columns < 2 ^ 60 ∧ nzmax < 2 ^ 60 ∧
        (∀ n ∈ jc.1, n < 2 ^ 64) ∧ ∀ n ∈ ir.1, n < 2 ^ 64 :=
      ⟨readUint_lt hrows, hcolumns, hnzmax, readUints_lt hjc, readUints_lt hir⟩
    dsimp only at h
    split at h
    · split at h
      · split at h
        · cases h
          exact wellFormed_sparse hshaped
        · cases h
      · obtain ⟨im, -, h⟩ := Outcome.bind_eq_ok h
        cases h
        exact wellFormed_sparse hshaped
    · cases h
      exact wellFormed_sparse hshaped
  · cases h

/-! ### Containers -/

/-- Every element is what some node has been decoded to. -/
theorem iter_decoded {nested : Node → Result MxArray} {first k room : Nat}
    {t : Nat × List (Option MxArray)}
    (h : Outcome.iter (elementStep use32 mem (fun tag pos => nested (tag, pos)) room) k (first, [])
      = .ok t) :
    ∃ vals : List MxArray, t.2 = vals.map some ∧ vals.length = k ∧
      ∀ x ∈ vals, ∃ c, nested c = .ok x := by
  induction k generalizing t with
  | zero =>
    cases h
    exact ⟨[], rfl, rfl, fun x hx => by cases hx⟩
  | succ k ih =>
    rw [Outcome.iter_succ_last] at h
    obtain ⟨s, hs, h⟩ := Outcome.bind_eq_ok h
    obtain ⟨vals, hvals, hlen, hnested⟩ := ih hs
    obtain ⟨⟨nbytes, p⟩, -, h⟩ := Outcome.bind_eq_ok h
    obtain ⟨tag, -, h⟩ := Outcome.bind_eq_ok h
    obtain ⟨v, hv, h⟩ := Outcome.bind_eq_ok h
    split at h
    · cases h
      refine ⟨vals ++ [v], ?_, ?_, ?_⟩
      · rw [hvals, List.map_append]
        rfl
      · rw [List.length_append, hlen]
        rfl
      · intro x hx
        rcases List.mem_append.mp hx with hx | hx
        · exact hnested x hx
        · rw [List.mem_singleton.mp hx]
          exact ⟨_, hv⟩
    · cases h

theorem elements_decoded {nested : Node → Result MxArray} {h : ContainerHead} {v : MxArray}
    (hf : h.nfields < 2 ^ 31) (hv : elements use32 mem nested h = .ok v) :
    h.nelts < 2 ^ 31 ∧ h.nelts * h.nfields ≤ h.room ∧ ∃ vals : List MxArray,
      v = h.build (vals.map some) ∧ vals.length = h.nelts * h.nfields ∧
      ∀ x ∈ vals, ∃ c, nested c = .ok x := by
  obtain ⟨hn, hroom, -⟩ := (elements_eq_ok hf).mp ⟨v, hv⟩
  rw [ContainerHead.reach, Nat.min_eq_left (Nat.le_of_lt hn)] at hroom
  rw [elements, funext (Outcome.forInt_of_lt hf _), Outcome.forInt_of_lt hn, Outcome.iter_iter] at hv
  obtain ⟨t, ht, hv⟩ := Outcome.bind_eq_ok hv
  obtain ⟨vals, hvals, hlen, hnested⟩ := iter_decoded ht
  cases hv
  exact ⟨hn, hroom, vals, by rw [hvals], hlen, hnested⟩

theorem countElements_ok {dims : List Nat} {n : Nat} (h : countElements dims = .ok n) :
    dims.length < 2 ^ 31 ∧ n = dims.prod % 2 ^ 64 := by
  by_cases hlen : dims.length < 2 ^ 31
  · rw [countElements_eq hlen] at h
    cases h
    exact ⟨hlen, rfl⟩
  · rw [countElements, if_neg hlen] at h
    cases h

theorem readNames_length {n p : Nat} {r : List CStr × Nat} (h : readNames mem n p = .ok r) :
    r.1.length = n := by
  induction n generalizing p r with
  | zero =>
    cases h
    rfl
  | succ n ih =>
    obtain ⟨s, -, h⟩ := Outcome.bind_eq_ok h
    obtain ⟨⟨ss, q⟩, hss, h⟩ := Outcome.bind_eq_ok h
    cases h
    exact congrArg Nat.succ (ih hss)

/-- The header of a container is about its dimensions, and in a struct about its names. -/
theorem structHead_dims {pos : Nat} {h : ContainerHead} (hs : structHead api use32 mem pos = .ok h) :
    ∃ dims fields, DimsFit (mxDims dims) ∧ dims.length < 2 ^ 31 ∧ h.nelts = dims.prod % 2 ^ 64 ∧
      h.room = (mxDims dims).prod * h.nfields ∧ fields.length = h.nfields ∧
      h.build = .struct (mxDims dims) fields := by
  obtain ⟨d, nelts, n, ss, q, hd, hcount, -, hss, rfl⟩ := structHead_ok hs
  obtain ⟨hlen, rfl⟩ := countElements_ok hcount
  exact ⟨d.1, ss, readDims_fit hd, hlen, rfl, rfl, readNames_length hss, rfl⟩

theorem cellHead_dims {pos : Nat} {h : ContainerHead} (hs : cellHead api use32 mem pos = .ok h) :
    ∃ dims, DimsFit (mxDims dims) ∧ dims.length < 2 ^ 31 ∧ h.nelts = dims.prod % 2 ^ 64 ∧
      h.room = (mxDims dims).prod ∧ h.nfields = 1 ∧ h.build = .cell (mxDims dims) := by
  obtain ⟨d, nelts, hd, hcount, rfl⟩ := cellHead_ok hs
  obtain ⟨hlen, rfl⟩ := countElements_ok hcount
  exact ⟨d.1, readDims_fit hd, hlen, rfl, rfl, rfl, rfl⟩

theorem length_mxDims_lt {dims : List Nat} (h : dims.length < 2 ^ 31) :
    (mxDims dims).length < 2 ^ 31 := by
  have hle := length_mxDims_le dims
  omega

/-- As many children are read as the array can hold: where no dimensions are announced, none at
all. -/
theorem count_of_room {dims : List Nat} {nfields : Nat} (hprod : (mxDims dims).prod < 2 ^ 64)
    (hroom : dims.prod % 2 ^ 64 * nfields ≤ (mxDims dims).prod * nfields) :
    (mxDims dims).prod ≤ dims.prod % 2 ^ 64 ∧
      dims.prod % 2 ^ 64 * nfields = (mxDims dims).prod * nfields := by
  by_cases h : dims = []
  · subst h
    exact ⟨Nat.zero_le _, Nat.le_antisymm hroom (by simp [mxDims])⟩
  · rw [prod_mxDims h] at hprod ⊢
    rw [Nat.mod_eq_of_lt hprod]
    exact ⟨Nat.le_refl _, rfl⟩

theorem allIn_some {P : MxArray → Prop} {vals : List MxArray} :
    AllIn P (vals.map some) ↔ ∀ x ∈ vals, x.All P := by
  rw [allIn_iff]
  refine ⟨fun h x hx => h x (List.mem_map_of_mem hx), fun h x hx => ?_⟩
  obtain ⟨y, hy, he⟩ := List.mem_map.mp hx
  cases he
  exact h x hy

theorem normIn_some {vals : List MxArray} (h : ∀ x ∈ vals, x.norm = x) :
    normIn (vals.map some) = vals.map some := by
  rw [normIn_eq_map, List.map_map]
  exact List.map_congr_left fun x hx => congrArg some (h x hx)

theorem wellFormed_struct {dims : List Nat} {fields : List CStr} {vals : List MxArray}
    (hfit : DimsFit dims) (hdims : dims.length < 2 ^ 31) (hprod : dims.prod < 2 ^ 31)
    (hfields : fields.length < 2 ^ 31) (hnames : ∀ f ∈ fields, f.1.length < 2 ^ 31)
    (htotal : fields.length * dims.prod < 2 ^ 31) (hlen : vals.length = dims.prod * fields.length)
    (h : ∀ x ∈ vals, WellFormed x) : WellFormed (.struct dims fields (vals.map some)) where
  shaped := by
    refine ⟨⟨hfit, by omega, hfields, hnames, ?_⟩, allIn_some.mpr fun x hx => (h x hx).shaped⟩
    rw [List.length_map, hlen]
  known := ⟨trivial, allIn_some.mpr fun x hx => (h x hx).known⟩
  loops := ⟨⟨⟨hdims, hprod⟩, htotal⟩, allIn_some.mpr fun x hx => (h x hx).loops⟩
  full := by rw [MxArray.norm, normIn_some fun x hx => (h x hx).full]

theorem wellFormed_cell {dims : List Nat} {vals : List MxArray} (hfit : DimsFit dims)
    (hdims : dims.length < 2 ^ 31) (hprod : dims.prod < 2 ^ 31) (hlen : vals.length = dims.prod)
    (h : ∀ x ∈ vals, WellFormed x) : WellFormed (.cell dims (vals.map some)) where
  shaped := by
    refine ⟨⟨hfit, by omega, ?_⟩, allIn_some.mpr fun x hx => (h x hx).shaped⟩
    rw [List.length_map, hlen]
  known := ⟨trivial, allIn_some.mpr fun x hx => (h x hx).known⟩
  loops := ⟨⟨hdims, hprod⟩, allIn_some.mpr fun x hx => (h x hx).loops⟩
  full := by rw [MxArray.norm, normIn_some fun x hx => (h x hx).full]

/-! ### Trees -/

/-- One node, when the decoder below makes well-formed values. -/
theorem nodeBody_wellFormed (hknown : api.Known) {nested : Node → Result MxArray}
    (hnested : ∀ c x, nested c = .ok x → x.All NodeHolds → WellFormed x) {c : Node} {v : MxArray}
    (h : nodeBody api use32 mem nested c = .ok v) (hholds : v.All NodeHolds) : WellFormed v := by
  obtain ⟨head, hhead, h⟩ := Outcome.bind_eq_ok h
  cases head with
  | leaf x =>
    cases h
    unfold nodeHead at hhead
    split at hhead
    · obtain ⟨y, hy, he⟩ := Outcome.bind_eq_ok hhead
      cases he
      exact deserializeArray_wellFormed hknown hy
    split at hhead
    · obtain ⟨y, hy, he⟩ := Outcome.bind_eq_ok hhead
      cases he
      exact deserializeSparse_wellFormed hy
    split at hhead
    · obtain ⟨y, -, he⟩ := Outcome.bind_eq_ok hhead
      cases he
    split at hhead
    · obtain ⟨y, -, he⟩ := Outcome.bind_eq_ok hhead
      cases he
    · cases hhead
  | container head =>
    have hfields := nodeHead_nfields hhead
    obtain ⟨hnelts, hroom, vals, rfl, hlen, hvals⟩ := elements_decoded hfields h
    have hall : AllIn NodeHolds (vals.map some) → ∀ x ∈ vals, WellFormed x := by
      intro hin x hx
      obtain ⟨c', hc'⟩ := hvals x hx
      exact hnested c' x hc' (allIn_some.mp hin x hx)
    rcases nodeHead_container hhead with hs | hs
    · obtain ⟨dims, fields, hfit, hdims, hcount, hholdsRoom, hnames, hbuild⟩ := structHead_dims hs
      rw [hbuild] at hholds ⊢
      obtain ⟨⟨hprod, hshort, htotal⟩, hin⟩ := hholds
      rw [hcount, hholdsRoom] at hroom
      obtain ⟨hle, hsame⟩ := count_of_room hprod hroom
      rw [← hcount] at hle hsame
      refine wellFormed_struct hfit (length_mxDims_lt hdims) (by omega) (by omega) hshort htotal ?_
        (hall hin)
      rw [hlen, hsame, hnames]
    · obtain ⟨dims, hfit, hdims, hcount, hholdsRoom, hone, hbuild⟩ := cellHead_dims hs
      rw [hbuild] at hholds ⊢
      obtain ⟨hprod, hin⟩ := hholds
      rw [hcount, hholdsRoom, hone, ← Nat.mul_one (mxDims dims).prod] at hroom
      obtain ⟨hle, hsame⟩ := count_of_room hprod hroom
      rw [← hcount] at hle hsame
      refine wellFormed_cell hfit (length_mxDims_lt hdims) (by omega) ?_ (hall hin)
      rw [hlen, hone, hsame, Nat.mul_one]

theorem deserializeNode_wellFormed (hknown : api.Known) {n pos : Nat} {tag : UInt8} {v : MxArray}
    (h : deserializeNode api use32 mem n tag pos = .ok v) (hholds : v.All NodeHolds) : WellFormed v := by
  rw [deserializeNode_eq_unroll n (tag, pos)] at h
  have hunroll : ∀ (n : Nat) (c : Node) (x : MxArray),
      Outcome.unroll (nodeBody api use32 mem) n c = .ok x → x.All NodeHolds → WellFormed x := by
    intro n
    induction n with
    | zero =>
      intro c x hx
      cases hx
    | succ n ih => exact fun c x hx => nodeBody_wellFormed hknown ih hx
  exact hunroll n (tag, pos) v h hholds

theorem memoryDump_ne_value {mem : Bytes} {pos length : Nat} {v : MxArray} :
    memoryDump mem pos length ≠ .ok (.value v) := by
  intro h
  obtain ⟨bs, -, h⟩ := Outcome.bind_eq_ok h
  cases h

/-- **A value that has been fetched is well formed.** -/
theorem deserialize_wellFormed (hknown : api.Known) {zlib : Zlib} {blob : Option Bytes} {n : Nat}
    {v : MxArray} (h : deserialize api zlib use32 blob n = .ok (.value v))
    (hholds : v.All NodeHolds) : WellFormed v := by
  cases blob with
  | none =>
    cases h
    exact wellFormed_full (by decide)
  | some mem =>
    obtain ⟨⟨buf, length⟩, -, h⟩ := Outcome.bind_eq_ok h
    obtain ⟨isDj0, -, h⟩ := Outcome.bind_eq_ok h
    split at h
    · cases h
    obtain ⟨isMatlab, -, h⟩ := Outcome.bind_eq_ok h
    split at h
    · obtain ⟨tag, -, h⟩ := Outcome.bind_eq_ok h
      split at h
      · unfold catchNested at h
        split at h
        · next x hx =>
          cases h
          exact deserializeNode_wellFormed hknown hx hholds
        · exact absurd h memoryDump_ne_value
        · cases h
        · cases h
        · cases h
      · exact absurd h memoryDump_ne_value
    · exact absurd h memoryDump_ne_value

/-! ### Storing it again -/

end

instance : DecidablePred NodeHolds
  | .struct _ _ _ => inferInstanceAs (Decidable (_ ∧ _ ∧ _))
  | .cell dims _ => inferInstanceAs (Decidable (dims.prod < 2 ^ 64))
  | .full _ | .sparse _ | .other _ => isTrue trivial

theorem documentedApi_known : documentedApi.Known := by
  intro dims c x s h
  obtain ⟨k, hk, hs⟩ := Option.bind_eq_some_iff.mp h
  split at hs
  · cases hs
    rw [hk]
    rfl
  · cases hs

end Mym
