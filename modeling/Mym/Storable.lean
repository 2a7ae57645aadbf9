import Mym.Binary
import Mym.RoundTrip

/-!
# What is stored, and what it reads as

A value that is stored for an M placeholder, or a byte vector that is stored for a B placeholder, is
read back by `deserialize` whether the field has been compressed or not, and with the preamble or
without it.  `Storable body v r` says that `v` can be stored for the placeholder `body` and reads as `r`:
the tree itself, or the bytes.

A blob has fewer than 2^32 bytes.
-/

namespace Mym

open MxArray

/-- The placeholder has the letter `t`, with the preamble or without it. -/
def Selects (t : UInt8) (body : Bytes) : Prop :=
  ∃ rest, body = t :: rest ∨ body = preNoCompression :: t :: rest

inductive Storable : Bytes → MxArray → Fetched → Prop
  | matlab {body : Bytes} (v : MxTree) (hroot : v.val.tag ≠ idSparse) (hloops : v.val.All NodeLoops)
      (hsize : (marked 8 v.val).length < 2 ^ 32) (hbody : Selects phMatlab body) :
      Storable body v.val (.value v.val.norm)
  | binary {body : Bytes} (v : ByteVector) (hsize : v.arr.re.length < 2 ^ 32)
      (hplain : Unmarked v.arr.re) (hbody : Selects phBinary body) :
      Storable body (.full v.arr) (.dump v.arr.re)

theorem Storable.tree {body : Bytes} {x y : MxArray} (h : Storable body x (.value y)) :
    Selects phMatlab body ∧ ∃ v : MxTree, v.val = x ∧ v.val.tag ≠ idSparse ∧ v.val.All NodeLoops := by
  cases h with
  | matlab v hroot hloops hsize hbody => exact ⟨hbody, v, rfl, hroot, hloops⟩

/-- What stands behind a blob does not complete a marker: a NUL comes next, or the blob is not the
beginning of one. -/
def Terminated (bs behind : Bytes) : Prop :=
  (∃ rest, behind = 0 :: rest) ∨ ¬Unfinished bs

section

variable {api : MxApi} {zlib : Zlib} {ratioTest : (plen len : Nat) → Bool}
  {outer : CStr → Serializer → MxArray → Result Serial}

/-! ### A tree -/

theorem not_framed_marked (v : MxArray) : ¬Framed (marked 8 v) := by
  rintro ⟨t, ht⟩
  rw [marked] at ht
  cases ht

variable (zlib ratioTest outer) in
/-- The field of a tree, before it is compressed: the placeholder says whether it is. -/
theorem stored_tree {body : Bytes} (hbody : Selects phMatlab body) :
    ∃ pec, ∀ v : MxTree, v.val.tag ≠ idSparse → v.val.All NodeLoops →
      stored zlib ratioTest outer body v.val = compressField zlib ratioTest pec (marked 8 v.val) := by
  obtain ⟨rest, hrest⟩ := hbody
  have hstored : ∀ (v : MxTree) (b : Bytes) (s : Serializer) (pec : Bool),
      getSerialFct b v.val = .ok (s, pec) →
      s.run (outer (textOf b.tail)) v.val = .ok (.of (marked 8 v.val)) →
      stored zlib ratioTest outer b v.val = compressField zlib ratioTest pec (marked 8 v.val) := by
    intro v b s pec hget hserial
    rw [stored, hget, Outcome.ok_bind, hserial, Outcome.ok_bind, Serial.of, readBytes_self rfl]
    rfl
  rcases hrest with rfl | rfl
  · refine ⟨true, fun v hroot hloops => ?_⟩
    obtain ⟨s, hget, -, hserial⟩ :=
      serialize_root v.val v.known hloops hroot (outer (textOf rest)) rest
    exact hstored v _ s true hget hserial
  · refine ⟨false, fun v hroot hloops => ?_⟩
    obtain ⟨s, -, hget, hserial⟩ :=
      serialize_root v.val v.known hloops hroot (outer (textOf (phMatlab :: rest))) rest
    exact hstored v _ s false hget hserial

variable (zlib) in
theorem deserialize_tree (hapi : api.Creates) (v : MxTree) (hloops : v.val.All NodeLoops)
    {behind : Bytes} (hlen : (marked 8 v.val ++ behind).length < 2 ^ 64) :
    deserialize api zlib false (some (marked 8 v.val ++ behind)) (marked 8 v.val).length
      = .ok (.value v.val.norm) := by
  have henc : (encode 8 v.val).length < 2 ^ 64 := by
    simp only [marked, List.length_append] at hlen
    omega
  have hread := deserialize_marked false hapi zlib v.val v.known v.shaped
    (fits_of_shaped v.val v.shaped henc) hlen (at_start (marked 8 v.val) behind)
    (marked 8 v.val).length
  rw [expected, if_pos (All.imp (fun _ => NodeLoops.counts) _ hloops)] at hread
  exact hread

/-- A field that holds a tree reads as the tree, compressed or not. -/
theorem deserialize_field (hapi : api.Creates) (hz : zlib.Inverts) (v : MxTree)
    (hloops : v.val.All NodeLoops) (hsize : (marked 8 v.val).length < 2 ^ 32) {pec : Bool} {s : Bytes}
    (hs : compressField zlib ratioTest pec (marked 8 v.val) = .ok s) {behind : Bytes}
    (hlen : behind.length < 2 ^ 63) :
    deserialize api zlib false (some (s ++ behind)) s.length = .ok (.value v.val.norm) := by
  by_cases hne : s = marked 8 v.val
  · rw [hne]
    refine deserialize_tree zlib hapi v hloops ?_
    rw [List.length_append]
    omega
  · obtain ⟨hlong, c, hc, rfl⟩ := compressField_cases hs hne
    have hshort : (marked 8 v.val ++ []).length < 2 ^ 64 := by
      rw [List.append_nil]
      omega
    have hsix : 6 ≤ (marked 8 v.val).length := by
      unfold minLenZlib at hlong
      omega
    have hself := deserialize_tree zlib hapi v hloops hshort
    rw [List.append_nil, deserialize_unframed (not_framed_marked v.val) hsix] at hself
    have hcaught : ¬Caught api false (marked 8 v.val) := by
      intro hcaught
      rw [deserializeBuffer_caught hcaught, memoryDump_self] at hself
      cases hself
    rw [deserialize_frame hz hc hsize (hapi.mxCalloc (by omega)), deserializeBuffer_congr hcaught,
      hself]

/-! ### A byte vector -/

variable (zlib ratioTest outer) in
theorem stored_bytes (v : ByteVector) {body : Bytes} (hbody : Selects phBinary body) :
    ∃ pec, stored zlib ratioTest outer body (.full v.arr) = compressField zlib ratioTest pec v.arr.re := by
  obtain ⟨rest, hrest⟩ := hbody
  obtain ⟨hplain, hpre⟩ := stored_binary zlib ratioTest outer v rest
  rcases hrest with rfl | rfl
  · exact ⟨true, hplain⟩
  · exact ⟨false, hpre⟩

theorem textOf_append {p : Bytes} (h : (0 : UInt8) ∈ p) (behind : Bytes) :
    textOf (p ++ behind) = textOf p := by
  obtain ⟨a, b, rfl⟩ := List.append_of_mem h
  rw [List.append_assoc, List.cons_append, textOf_append_nul, textOf_append_nul]

/-- What stands behind such a vector does not make a marker of it. -/
theorem Unmarked.append {p : Bytes} (h : Unmarked p) {behind : Bytes} (hend : Terminated p behind) :
    Unmarked (p ++ behind) := by
  have hsame : textOf (p ++ behind) = textOf p → Unmarked (p ++ behind) := fun htext =>
    ⟨by rw [htext]; exact h.zlib, by rw [htext]; exact h.matlab, by rw [htext]; exact h.dj0⟩
  rcases hend with ⟨rest, rfl⟩ | hend
  · exact hsame (textOf_append_nul p rest)
  by_cases hmem : (0 : UInt8) ∈ p
  · exact hsame (textOf_append hmem behind)
  have hne : ∀ b ∈ p, decide (b ≠ 0) = true := by
    rintro b hb
    refine decide_eq_true ?_
    rintro rfl
    exact hmem hb
  have htext : (textOf (p ++ behind)).1 = p ++ (textOf behind).1 := List.takeWhile_append_of_pos hne
  refine ⟨fun he => hend (Or.inl ?_), fun he => hend (Or.inr (Or.inl ?_)), ?_⟩
  · rw [← he, htext]
    exact List.prefix_append _ _
  · rw [← he, htext]
    exact List.prefix_append _ _
  · rw [strcaseEq, beq_eq_false_iff_ne]
    intro he
    rw [htext, List.map_append] at he
    exact hend (Or.inr (Or.inr (he ▸ List.prefix_append _ _)))

theorem deserialize_bytes {p : Bytes} (h : Unmarked p) {behind : Bytes} (hend : Terminated p behind) :
    deserialize api zlib false (some (p ++ behind)) p.length = .ok (.dump p) := by
  refine (h.append hend).dumped ?_
  rcases hend with ⟨rest, rfl⟩ | hend
  · exact not_unfinished_of_nul (by simp)
  · exact fun hpre => hend hpre.of_append

/-- A field that holds a byte vector reads as the bytes, compressed or not. -/
theorem deserialize_byteField (hapi : api.Creates) (hz : zlib.Inverts) {p s : Bytes} (h : Unmarked p)
    (hsize : p.length < 2 ^ 32) {pec : Bool} (hs : compressField zlib ratioTest pec p = .ok s)
    {behind : Bytes} (hend : Terminated p behind) :
    deserialize api zlib false (some (s ++ behind)) s.length = .ok (.dump p) := by
  by_cases hne : s = p
  · rw [hne]
    exact deserialize_bytes h hend
  · obtain ⟨hlong, c, hc, rfl⟩ := compressField_cases hs hne
    exact deserialize_frame_unmarked hz hc hlong hsize (hapi.mxCalloc (by omega)) h behind

/-! ### Any of them -/

/-- **What is stored reads as what it was.** -/
theorem Storable.reads {body : Bytes} {v : MxArray} {r : Fetched} (h : Storable body v r)
    (hapi : api.Creates) (hz : zlib.Inverts) {s : Bytes}
    (hs : stored zlib ratioTest outer body v = .ok s) {behind : Bytes}
    (hlen : behind.length < 2 ^ 63) (hend : ∀ bs, r = .dump bs → Terminated bs behind) :
    deserialize api zlib false (some (s ++ behind)) s.length = .ok r := by
  cases h with
  | matlab v hroot hloops hsize hbody =>
    obtain ⟨pec, hpec⟩ := stored_tree zlib ratioTest outer hbody
    exact deserialize_field hapi hz v hloops hsize ((hpec v hroot hloops).symm.trans hs) hlen
  | binary v hsize hplain hbody =>
    obtain ⟨pec, hpec⟩ := stored_bytes zlib ratioTest outer v hbody
    exact deserialize_byteField hapi hz hplain hsize (hpec.symm.trans hs) (hend v.arr.re rfl)

/-- It can be stored, unless the compression fails. -/
theorem Storable.stored {body : Bytes} {v : MxArray} {r : Fetched} (h : Storable body v r)
    (hz : ∀ p, zlib.compress p ≠ none) : ∃ s, stored zlib ratioTest outer body v = .ok s := by
  cases h with
  | matlab v hroot hloops hsize hbody =>
    obtain ⟨pec, hpec⟩ := stored_tree zlib ratioTest outer hbody
    rw [hpec v hroot hloops]
    exact compressField_ok (hz _)
  | binary v hsize hplain hbody =>
    obtain ⟨pec, hpec⟩ := stored_bytes zlib ratioTest outer v hbody
    rw [hpec]
    exact compressField_ok (hz _)

end

end Mym
