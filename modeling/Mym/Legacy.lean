import Mym.RoundTrip

/-!
# The legacy layout

`MYM_USE_32BIT_DIMS` makes the decoders read every number of the format, but not the
number of fields, the class and the complexity, from four bytes.  On the four-byte
layout of a value they then give what they give on the eight-byte layout without it
(`deserialize_legacy_eq`): both layouts are `encode w` for the width of the mode, and
`deserialize_marked` holds for either.
-/

namespace Mym

open MxArray

/-- Eight-byte numbers make an encoding at most twice as long. -/
theorem length_encode_eight_le (v : MxArray) :
    (encode 8 v).length ≤ 2 * (encode 4 v).length := by
  have hdims : ∀ dims : List Nat, (dimBytes 8 dims).length = 2 * (dimBytes 4 dims).length := by
    intro dims
    simp only [dimBytes, List.length_append, length_leBytes, length_wordBytes]
    omega
  have hchildren : ∀ vals : List (Option MxArray),
      (∀ v, some v ∈ vals → (encode 8 v).length ≤ 2 * (encode 4 v).length) →
      (childBytes 8 vals).length ≤ 2 * (childBytes 4 vals).length := by
    intro vals h
    induction vals with
    | nil => simp
    | cons o vals ih =>
      have ih := ih fun v hv => h v (List.mem_cons_of_mem _ hv)
      have ho : (encode 8 (child o)).length ≤ 2 * (encode 4 (child o)).length := by
        cases o with
        | none => decide
        | some v => exact h v (by simp)
      simp only [childBytes_cons, sized, List.length_append, length_leBytes]
      omega
  induction v using MxArray.ind with
  | full a =>
    simp only [encode, body, fullBody, List.length_cons, List.length_append, hdims,
      length_leBytes]
    omega
  | sparse a =>
    simp only [encode, body, sparseBody, List.length_cons, List.length_append, length_leBytes,
      length_wordBytes]
    omega
  | struct dims fields vals ih =>
    have := hchildren vals ih
    simp only [encode, body, List.length_cons, List.length_append, hdims, length_leBytes]
    omega
  | cell dims vals ih =>
    have := hchildren vals ih
    simp only [encode, body, List.length_cons, List.length_append, hdims]
    omega
  | other c => simp [encode, body]

/-- **The two modes agree.**  For a value whose numbers and whose encoding fit 32 bits,
`deserialize` in 32-bit mode on the four-byte layout returns what it returns in 64-bit mode
on the eight-byte layout: the value, where the `int` counters can count its elements. -/
theorem deserialize_legacy_eq {api : MxApi} (hapi : api.Creates) (zlib : Zlib) (v : MxTree)
    (hf : v.val.All (NodeFits 4)) (hlen : (encode 4 v.val).length < 2 ^ 32) :
    deserialize api zlib true (some (marked 4 v.val)) (marked 4 v.val).length
        = deserialize api zlib false (some (marked 8 v.val)) (marked 8 v.val).length ∧
      (v.val.All NodeCounts →
        deserialize api zlib true (some (marked 4 v.val)) (marked 4 v.val).length
          = .ok (.value v.val.norm)) := by
  have h8 := length_encode_eight_le v.val
  have hmark : ∀ w, (marked w v.val).length = 4 + (encode w v.val).length := by
    intro w
    rw [marked, List.length_append]
    rfl
  have hfour := deserialize_marked true hapi zlib v.val v.known v.shaped hf
    (by rw [hmark]; omega) (at_self (marked 4 v.val)) (marked 4 v.val).length
  have height := deserialize_marked false hapi zlib v.val v.known v.shaped
    (fits_of_shaped v.val v.shaped (by omega)) (by rw [hmark]; omega)
    (at_self (marked 8 v.val)) (marked 8 v.val).length
  refine ⟨hfour.trans height.symm, fun hc => ?_⟩
  rw [hfour, expected, if_pos hc]
  rfl

theorem deserialize_legacy_eq_sample :
    deserialize documentedApi runZlib true (some (marked 4 sampleTree.val))
        (marked 4 sampleTree.val).length
      = deserialize documentedApi runZlib false (some (marked 8 sampleTree.val))
        (marked 8 sampleTree.val).length ∧
      (sampleTree.val.All NodeCounts →
        deserialize documentedApi runZlib true (some (marked 4 sampleTree.val))
          (marked 4 sampleTree.val).length = .ok (.value sampleTree.val.norm)) :=
  deserialize_legacy_eq documentedApi_creates runZlib sampleTree (by decide) (by decide +kernel)

end Mym
