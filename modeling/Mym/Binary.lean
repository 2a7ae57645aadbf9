import Mym.Fallback
import Mym.Substitution

/-!
# Binary fields

`{B}` and `{uB}` store the bytes of a `uint8` vector as they are, or compressed in a frame.
Nothing marks them as what they are, so reading them back depends on what they begin with:
`deserialize_binary` states that a vector whose leading string is none of the markers comes
back byte for byte, whatever the compression made of it.
-/

namespace Mym

/-- A `uint8` vector: what `{B}` accepts. -/
structure ByteVector where
  arr : FullArray
  uint8 : arr.classId = MxClass.uint8.id
  elementSize : arr.elementSize = 1
  vector : (MxArray.full arr).isVector = true

/-- The leading string of the bytes is none of the markers. -/
structure Unmarked (bs : Bytes) : Prop where
  zlib : (textOf bs).1 ≠ zlibId
  matlab : (textOf bs).1 ≠ idMatlab
  dj0 : strcaseEq (textOf bs).1 dj0Id = false

instance (bs : Bytes) : Decidable (Unmarked bs) :=
  decidable_of_iff ((textOf bs).1 ≠ zlibId ∧ (textOf bs).1 ≠ idMatlab ∧
      strcaseEq (textOf bs).1 dj0Id = false)
    ⟨fun h => ⟨h.1, h.2.1, h.2.2⟩, fun h => ⟨h.1, h.2, h.3⟩⟩

/-- The bytes are the beginning of a marker, so that what stands behind them may complete it. -/
def Unfinished (bs : Bytes) : Prop :=
  bs <+: zlibId ∨ bs <+: idMatlab ∨ bs.map toLower <+: dj0Id.map toLower

instance (bs : Bytes) : Decidable (Unfinished bs) :=
  inferInstanceAs (Decidable (_ ∨ _ ∨ _))

section

variable {api : MxApi} {zlib : Zlib} {use32 : Bool}

theorem toLower_eq_zero (b : UInt8) : toLower b = 0 ↔ b = 0 := by
  unfold toLower
  split
  · next h =>
    obtain ⟨hlo, hhi⟩ := h
    refine ⟨?_, ?_⟩
    · intro h0
      have := congrArg UInt8.toNat h0
      have hlo : 65 ≤ b.toNat := hlo
      have hhi : b.toNat ≤ 90 := hhi
      simp only [UInt8.toNat_add, UInt8.reduceToNat] at this
      omega
    · rintro rfl
      exact absurd hlo (by decide)
  · exact Iff.rfl

theorem textOf_append_nul (bs behind : Bytes) : textOf (bs ++ 0 :: behind) = textOf bs := by
  refine Subtype.ext ?_
  by_cases h : (0 : UInt8) ∈ bs
  · obtain ⟨s, t, rfl, hs⟩ := List.eq_append_cons_of_mem h
    show ((s ++ 0 :: t) ++ 0 :: behind).takeWhile (· ≠ 0) = (s ++ 0 :: t).takeWhile (· ≠ 0)
    rw [List.append_assoc, List.cons_append, takeWhile_ne_zero_append hs,
      takeWhile_ne_zero_append hs]
  · show (bs ++ 0 :: behind).takeWhile (· ≠ 0) = _
    rw [takeWhile_ne_zero_append h, textOf_eq h]

theorem Unfinished.of_append {bs behind : Bytes} (h : Unfinished (bs ++ behind)) : Unfinished bs := by
  rcases h with hp | hp | hp
  · exact Or.inl ((List.prefix_append _ _).trans hp)
  · exact Or.inr (Or.inl ((List.prefix_append _ _).trans hp))
  · rw [List.map_append] at hp
    exact Or.inr (Or.inr ((List.prefix_append _ _).trans hp))

theorem not_unfinished_of_nul {bs : Bytes} (h : (0 : UInt8) ∈ bs) : ¬Unfinished bs := by
  rintro (hp | hp | hp)
  · exact absurd (hp.subset h) (by decide)
  · exact absurd (hp.subset h) (by decide)
  · exact absurd (hp.subset (List.mem_map_of_mem h)) (by decide)

theorem not_unfinished_of_length {bs : Bytes} (h : 5 < bs.length) : ¬Unfinished bs := by
  have hid : zlibId.length = 5 ∧ idMatlab.length = 3 ∧ (dj0Id.map toLower).length = 3 := by decide
  rintro (hp | hp | hp)
  · have := hp.length_le
    omega
  · have := hp.length_le
    omega
  · have := hp.length_le
    rw [List.length_map] at this
    omega

theorem Unmarked.plain {buf : Bytes} (h : Unmarked buf) (hend : ¬Unfinished buf) : Plain buf := by
  refine ⟨?_, ?_⟩
  · refine sameAt_text_ne toLower_eq_zero (by decide) (fun hp => hend (Or.inr (Or.inr hp))) ?_
    have hdj0 := h.dj0
    rw [strcaseEq, beq_eq_false_iff_ne] at hdj0
    exact hdj0
  · refine sameAt_text_ne (f := id) (fun b => Iff.rfl) (by decide) (fun hp => ?_) fun he => ?_
    · rw [List.map_id, List.map_id] at hp
      exact hend (Or.inr (Or.inl hp))
    · rw [List.map_id, List.map_id] at he
      exact h.matlab he

theorem Unmarked.not_frame {buf : Bytes} (h : Unmarked buf) (hend : ¬Unfinished buf) :
    strcmpEq buf 0 zlibId = .ok false := by
  refine sameAt_text_ne (f := id) (fun b => Iff.rfl) (by decide) (fun hp => ?_) fun he => ?_
  · rw [List.map_id, List.map_id] at hp
    exact hend (Or.inl hp)
  · rw [List.map_id, List.map_id] at he
    exact h.zlib he

/-- What carries no marker is dumped as far as it is asked for. -/
theorem Unmarked.dumped {p behind : Bytes} (h : Unmarked (p ++ behind))
    (hend : ¬Unfinished (p ++ behind)) :
    deserialize api zlib use32 (some (p ++ behind)) p.length = .ok (.dump p) := by
  have hobject : inflated api zlib use32 (p ++ behind) p.length = .ok .object := by
    rw [inflated, h.not_frame hend]
    rfl
  have hfall : FallsBack api zlib use32 (p ++ behind) p.length .object .object 0 :=
    .unmarked hobject (h.plain hend)
  rw [hfall.eq]
  show memoryDump (p ++ behind) 0 p.length = _
  rw [memoryDump_of_le (by simp), List.take_left]

theorem deserialize_unmarked {bs : Bytes} (h : Unmarked bs) (behind : Bytes) :
    deserialize api zlib use32 (some (bs ++ 0 :: behind)) bs.length = .ok (.dump bs) := by
  have hu : Unmarked (bs ++ 0 :: behind) := by
    have htext := textOf_append_nul bs behind
    exact ⟨by rw [htext]; exact h.zlib, by rw [htext]; exact h.matlab, by rw [htext]; exact h.dj0⟩
  exact hu.dumped (not_unfinished_of_nul (by simp))

theorem deserialize_frame_unmarked (hz : zlib.Inverts) {p c : Bytes} (hc : zlib.compress p = some c)
    (hlong : minLenZlib < p.length) (hlt : p.length < 2 ^ 32)
    (hmemory : api.mxCalloc p.length 1 = true) (h : Unmarked p) (behind : Bytes) :
    deserialize api zlib false (some (frame p.length c ++ behind)) (frame p.length c).length
      = .ok (.dump p) := by
  have hplain : Plain p := h.plain (not_unfinished_of_length (Nat.lt_trans (by decide) hlong))
  rw [deserialize_frame hz hc hlt hmemory]
  rw [deserializeBuffer, hplain.1, Outcome.ok_bind, if_neg (by decide), hplain.2, Outcome.ok_bind,
    if_neg (by decide), memoryDump_self]

variable {ratioTest : (plen len : Nat) → Bool} {outer : CStr → Serializer → MxArray → Result Serial}

variable (zlib ratioTest outer) in
theorem stored_binary (v : ByteVector) (rest : Bytes) :
    stored zlib ratioTest outer (phBinary :: rest) (.full v.arr)
        = compressField zlib ratioTest true v.arr.re ∧
      stored zlib ratioTest outer (preNoCompression :: phBinary :: rest) (.full v.arr)
        = compressField zlib ratioTest false v.arr.re := by
  have hlen : v.arr.re.length = v.arr.dims.prod := by
    rw [v.arr.re_length, v.elementSize, Nat.one_mul]
  have hser : ∀ pec : Bool, ∀ body : Bytes,
      getSerialFct body (.full v.arr) = .ok (.binary, pec) →
      stored zlib ratioTest outer body (.full v.arr) = compressField zlib ratioTest pec v.arr.re := by
    intro pec body hbody
    rw [stored, hbody, Outcome.ok_bind]
    show readBytes v.arr.re 0 v.arr.dims.prod >>= _ = _
    rw [readBytes_of_at (at_self _) hlen, Outcome.ok_bind]
  have hvec := v.vector
  have hcls : ((MxArray.full v.arr).classId != MxClass.uint8.id) = false := by
    simp [MxArray.classId, v.uint8]
  refine ⟨?_, ?_⟩
  · refine hser true _ ?_
    simp [getSerialFct, phBinary, preNoCompression, phMatlab, hvec, hcls]
  · refine hser false _ ?_
    simp [getSerialFct, phBinary, preNoCompression, phMatlab, hvec, hcls]

theorem compressField_ok {pec : Bool} {p : Bytes} (h : zlib.compress p ≠ none) :
    ∃ s, compressField zlib ratioTest pec p = .ok s := by
  unfold compressField
  split
  · cases hc : zlib.compress p with
    | none => exact absurd hc h
    | some c =>
      dsimp only
      split
      · exact ⟨_, rfl⟩
      · exact ⟨_, rfl⟩
  · exact ⟨_, rfl⟩

/-- What the compression loop leaves of bytes without a marker is read back as these bytes, if there
is memory for them; in the legacy mode this holds of what is left uncompressed. -/
theorem deserialize_compressField (hz : zlib.Inverts) {pec : Bool} {p s : Bytes}
    (hs : compressField zlib ratioTest pec p = .ok s) (hlt : p.length < 2 ^ 32) (h : Unmarked p)
    (hmode : (use32 = false ∧ api.mxCalloc p.length 1 = true) ∨ s = p) (behind : Bytes) :
    deserialize api zlib use32 (some (s ++ 0 :: behind)) s.length = .ok (.dump p) := by
  by_cases hsame : s = p
  · subst hsame
    exact deserialize_unmarked h behind
  · obtain ⟨hlong, c, hc, rfl⟩ := compressField_cases hs hsame
    obtain ⟨h32, hmemory⟩ := hmode.resolve_right hsame
    rw [h32]
    exact deserialize_frame_unmarked hz hc hlong hlt hmemory h _

/-- **Reading back a binary field.**  The bytes of a vector without a marker come back in order,
for `{B}` and `{uB}`, whatever the length and ratio tests decide, if there is memory to inflate what has
been compressed; and unless the compression itself fails, there is something to read back. -/
theorem deserialize_binary (hz : zlib.Inverts) (v : ByteVector) (hlt : v.arr.re.length < 2 ^ 32)
    (h : Unmarked v.arr.re) (rest : Bytes) {body : Bytes}
    (hbody : body = phBinary :: rest ∨ body = preNoCompression :: phBinary :: rest) :
    (∀ s, stored zlib ratioTest outer body (.full v.arr) = .ok s →
      (use32 = false ∧ api.mxCalloc v.arr.re.length 1 = true) ∨ s = v.arr.re → ∀ behind : Bytes,
      deserialize api zlib use32 (some (s ++ 0 :: behind)) s.length = .ok (.dump v.arr.re)) ∧
    (zlib.compress v.arr.re ≠ none →
      ∃ s, stored zlib ratioTest outer body (.full v.arr) = .ok s) := by
  obtain ⟨hB, huB⟩ := stored_binary zlib ratioTest outer v rest
  obtain ⟨pec, hstored⟩ : ∃ pec, stored zlib ratioTest outer body (.full v.arr)
      = compressField zlib ratioTest pec v.arr.re := by
    rcases hbody with rfl | rfl
    · exact ⟨true, hB⟩
    · exact ⟨false, huB⟩
  rw [hstored]
  exact ⟨fun s hs hmode behind => deserialize_compressField hz hs hlt h hmode behind,
    compressField_ok⟩

end

/-- 1001 zeros, which the compression replaces by a frame. -/
def zeroVector : ByteVector where
  arr := ⟨MxClass.uint8.id, 1, [1, 1001], List.replicate 1001 0, none,
    by rw [List.length_replicate]; rfl, fun _ h => by cases h⟩
  uint8 := rfl
  elementSize := rfl
  vector := rfl

theorem deserialize_binary_zeros :
    (∀ s, stored runZlib savesTenth (fun _ _ _ => .undefined) [phBinary] (.full zeroVector.arr)
        = .ok s → (false = false ∧ documentedApi.mxCalloc zeroVector.arr.re.length 1 = true) ∨
        s = zeroVector.arr.re → ∀ behind : Bytes,
      deserialize documentedApi runZlib false (some (s ++ 0 :: behind)) s.length
        = .ok (.dump zeroVector.arr.re)) ∧
    (runZlib.compress zeroVector.arr.re ≠ none →
      ∃ s, stored runZlib savesTenth (fun _ _ _ => .undefined) [phBinary] (.full zeroVector.arr)
        = .ok s) := by
  refine deserialize_binary runZlib_inverts zeroVector ?_ ⟨?_, ?_, ?_⟩ [] (Or.inl rfl)
  · show (List.replicate 1001 (0 : UInt8)).length < 2 ^ 32
    rw [List.length_replicate]
    decide
  · show (List.replicate (1000 + 1) (0 : UInt8)).takeWhile (· ≠ 0) ≠ zlibId
    rw [List.replicate_succ]
    decide
  · show (List.replicate (1000 + 1) (0 : UInt8)).takeWhile (· ≠ 0) ≠ idMatlab
    rw [List.replicate_succ]
    decide
  · show strcaseEq ((List.replicate (1000 + 1) (0 : UInt8)).takeWhile (· ≠ 0)) dj0Id = false
    rw [List.replicate_succ]
    rfl

end Mym
