import Mym.RoundTrip
import Mym.Walk

/-!
# The entry point and the nested serializers

Which serializer a value goes to is decided in three places: by `getSerialFct` for `{M}`, and by
the two chains of tests for the children of a struct and of a cell array.  The chains ask
first whether the value is sparse; `getSerialFct` asks whether it is numeric or logical,
which a sparse matrix is as well, and hands it to `serializeArray`.

`SameEncoding` is what one would want: at the top level stands the marker and then what a
container would embed, so that both are read alike.  `sameEncoding_iff` states that only
sparse matrices lack it.
-/

namespace Mym

open MxArray

/-- A serialization behind the marker. -/
def Serial.withHead (p : Serial) : Serial :=
  ⟨headBytes true ++ p.bytes, p.rnBytes + (headBytes true).length⟩

/-- A value that `{M}` accepts, of a shape MATLAB can give it. -/
structure Accepted where
  val : MxArray
  shaped : val.All Shaped
  accepted : ∃ f, getSerialFct [phMatlab] val = .ok f

/-- What is wanted of the value at the top level: the bytes that a container embeds behind the
marker, nothing read outside the data of the value, and what is read back from wherever
these bytes are embedded. -/
structure SameEncoding (v : MxArray) : Prop where
  written : ∀ outer rest, ∃ s : Serializer, getSerialFct (phMatlab :: rest) v = .ok (s, true) ∧
    getSerialFct (preNoCompression :: phMatlab :: rest) v = .ok (s, false) ∧
    s.run outer v = serializeChild v >>= fun p => .ok p.withHead
  inside : serializeChild v ≠ .outside
  read : ∀ {api : MxApi}, api.Creates → ∀ (zlib : Zlib) (p : Serial),
    serializeChild v = .ok p → ∀ behind : Bytes, (p.withHead.bytes ++ behind).length < 2 ^ 64 →
    ∀ mem pos tag, mem.length < 2 ^ 64 → At mem pos p.bytes → mem[pos]? = some tag →
      deserialize api zlib false (some (p.withHead.bytes ++ behind)) p.withHead.rnBytes
        = decode api false mem (tag, pos + 1) >>= fun v => .ok (.value v)

/-! ### The head -/

/-- The check at the end of a container comes out the same with the head and without. -/
theorem checked_head {written : Bytes} {rnHead rnBytes : Nat}
    (h : rnHead = rnBytes + (headBytes true).length) :
    (if (headBytes true ++ written).length ≠ rnHead then .raised .notEnoughAllocated
      else .ok ⟨headBytes true ++ written, rnHead⟩ : Result Serial)
      = (if (headBytes false ++ written).length ≠ rnBytes then .raised .notEnoughAllocated
          else .ok ⟨headBytes false ++ written, rnBytes⟩ : Result Serial) >>=
            fun p => .ok p.withHead := by
  have hlen : (headBytes true ++ written).length ≠ rnHead ↔
      (headBytes false ++ written).length ≠ rnBytes := by
    rw [List.length_append, List.length_append, h, length_headBytes false]
    simp only [Bool.false_eq_true, if_false]
    omega
  by_cases hne : (headBytes false ++ written).length ≠ rnBytes
  · rw [if_pos hne, if_pos (hlen.mpr hne)]
    rfl
  · rw [if_neg hne, if_neg fun h => hne (hlen.mp h), h]
    rfl

theorem putStruct_head (dims : List Nat) (fields : List CStr) (parts : List Serial) :
    putStruct dims fields parts true
      = putStruct dims fields parts false >>= fun p => .ok p.withHead := by
  unfold putStruct
  simp only [List.append_assoc]
  split
  · rfl
  · refine checked_head ?_
    rw [length_headBytes]
    simp only [Bool.false_eq_true, if_false, if_true]
    omega

theorem putCell_head (dims : List Nat) (parts : List Serial) :
    putCell dims parts true = putCell dims parts false >>= fun p => .ok p.withHead := by
  unfold putCell
  simp only [List.append_assoc]
  refine checked_head ?_
  rw [length_headBytes]
  simp only [Bool.false_eq_true, if_false, if_true]
  omega

theorem serializeStruct_head (dims : List Nat) (fields : List CStr)
    (vals : List (Option MxArray)) :
    serializeStruct dims fields vals true
      = serializeChild (.struct dims fields vals) >>= fun p => .ok p.withHead := by
  rw [serializeStruct, serializeChild, Outcome.bind_assoc]
  apply Outcome.bind_congr
  intro parts _
  split
  · rfl
  · exact putStruct_head dims fields parts

theorem serializeCell_head (dims : List Nat) (vals : List (Option MxArray)) :
    serializeCell dims vals true
      = serializeChild (.cell dims vals) >>= fun p => .ok p.withHead := by
  rw [serializeCell, serializeChild, Outcome.bind_assoc]
  apply Outcome.bind_congr
  intro parts _
  split
  · rfl
  · exact putCell_head dims parts

/-! ### What a child is serialized to -/

/-- A container whose children were serialized to their encodings is serialized to its own, if it
is serialized at all. -/
theorem putStruct_ok {dims : List Nat} {fields : List CStr} {vals : List (Option MxArray)}
    {p : Serial} (h : putStruct dims fields (partsOf vals) false = .ok p) :
    p = .of (encode 8 (.struct dims fields vals)) := by
  by_cases hcount : 2 ^ 31 ≤ fields.length * dims.prod
  · unfold putStruct at h
    rw [if_pos hcount] at h
    cases h
  · rw [putStruct_eq dims fields vals false (Nat.not_le.mp hcount)] at h
    cases h
    rfl

theorem putCell_ok {dims : List Nat} {vals : List (Option MxArray)} {p : Serial}
    (h : putCell dims (partsOf vals) false = .ok p) : p = .of (encode 8 (.cell dims vals)) := by
  rw [putCell_eq] at h
  cases h
  rfl

theorem serializeParts_ok {vals : List (Option MxArray)}
    (hv : ∀ v, some v ∈ vals → ∀ p, serializeChild v = .ok p →
      v.All NodeKnown ∧ p = .of (encode 8 v))
    {ps : List Serial} (h : serializeParts vals = .ok ps) :
    AllIn NodeKnown vals ∧ ps = partsOf vals := by
  induction vals generalizing ps with
  | nil =>
    cases h
    exact ⟨trivial, rfl⟩
  | cons o vals ih =>
    have ih := @ih fun v hv' => hv v (List.mem_cons_of_mem _ hv')
    cases o with
    | none =>
      obtain ⟨q, hq, h⟩ := Outcome.bind_eq_ok h
      obtain ⟨qs, hqs, h⟩ := Outcome.bind_eq_ok h
      obtain ⟨hk, rfl⟩ := ih hqs
      rw [serializeFull_eq] at hq
      cases hq
      cases h
      exact ⟨hk, rfl⟩
    | some v =>
      obtain ⟨q, hq, h⟩ := Outcome.bind_eq_ok h
      obtain ⟨qs, hqs, h⟩ := Outcome.bind_eq_ok h
      obtain ⟨hk, rfl⟩ := ih hqs
      obtain ⟨hkv, rfl⟩ := hv v (by simp) q hq
      cases h
      exact ⟨⟨hkv, hk⟩, rfl⟩

/-- What is serialized at all is known throughout, and serialized to its encoding. -/
theorem serializeChild_ok (v : MxArray) {p : Serial} (h : serializeChild v = .ok p) :
    v.All NodeKnown ∧ p = .of (encode 8 v) := by
  induction v using MxArray.ind generalizing p with
  | full a =>
    rw [serializeChild, serializeFull_eq] at h
    cases h
    exact ⟨trivial, rfl⟩
  | sparse a =>
    rw [serializeChild, serializeSparse_eq] at h
    cases h
    exact ⟨trivial, rfl⟩
  | struct dims fields vals ih =>
    rw [serializeChild] at h
    obtain ⟨ps, hps, h⟩ := Outcome.bind_eq_ok h
    obtain ⟨hk, rfl⟩ := serializeParts_ok (fun v hv p => ih v hv) hps
    split at h
    · cases h
    · exact ⟨⟨trivial, hk⟩, putStruct_ok h⟩
  | cell dims vals ih =>
    rw [serializeChild] at h
    obtain ⟨ps, hps, h⟩ := Outcome.bind_eq_ok h
    obtain ⟨hk, rfl⟩ := serializeParts_ok (fun v hv p => ih v hv) hps
    split at h
    · cases h
    · exact ⟨⟨trivial, hk⟩, putCell_ok h⟩
  | other c => cases h

/-- The nested serializers read nothing outside the data of a value. -/
theorem serializeParts_inside {vals : List (Option MxArray)}
    (hv : ∀ v, some v ∈ vals → serializeChild v ≠ .outside) : serializeParts vals ≠ .outside := by
  induction vals with
  | nil => exact nofun
  | cons o vals ih =>
    have ih := ih fun v hv' => hv v (List.mem_cons_of_mem _ hv')
    intro hout
    cases o with
    | none =>
      rw [serializeParts, serializeFull_eq, Outcome.ok_bind] at hout
      rcases Outcome.stop_bind.mp (Outcome.stop_eq_outside.mpr hout) with h | ⟨ps, -, h⟩
      · exact ih (Outcome.stop_eq_outside.mp h)
      · cases h
    | some v =>
      rw [serializeParts] at hout
      rcases Outcome.stop_bind.mp (Outcome.stop_eq_outside.mpr hout) with h | ⟨p, -, h⟩
      · exact hv v (by simp) (Outcome.stop_eq_outside.mp h)
      rcases Outcome.stop_bind.mp h with h | ⟨ps, -, h⟩
      · exact ih (Outcome.stop_eq_outside.mp h)
      · cases h

theorem checked_inside {written : Bytes} {rnBytes : Nat} :
    (if written.length ≠ rnBytes then .raised .notEnoughAllocated
      else .ok ⟨written, rnBytes⟩ : Result Serial) ≠ .outside := by
  split
  · simp
  · simp

theorem putStruct_inside {dims : List Nat} {fields : List CStr} {parts : List Serial} :
    putStruct dims fields parts false ≠ .outside := by
  intro h
  unfold putStruct at h
  by_cases hcount : 2 ^ 31 ≤ fields.length * dims.prod
  · rw [if_pos hcount] at h
    cases h
  · rw [if_neg hcount] at h
    exact checked_inside h

theorem putCell_inside {dims : List Nat} {parts : List Serial} :
    putCell dims parts false ≠ .outside := by
  intro h
  unfold putCell at h
  exact checked_inside h

theorem serializeChild_inside (v : MxArray) : serializeChild v ≠ .outside := by
  induction v using MxArray.ind with
  | full a =>
    rw [serializeChild, serializeFull_eq]
    exact fun h => by cases h
  | sparse a =>
    rw [serializeChild, serializeSparse_eq]
    exact fun h => by cases h
  | struct dims fields vals ih =>
    intro hout
    rw [serializeChild] at hout
    rcases Outcome.stop_bind.mp (Outcome.stop_eq_outside.mpr hout) with h | ⟨ps, -, h⟩
    · exact serializeParts_inside ih (Outcome.stop_eq_outside.mp h)
    · split at h
      · cases h
      · exact putStruct_inside (Outcome.stop_eq_outside.mp h)
  | cell dims vals ih =>
    intro hout
    rw [serializeChild] at hout
    rcases Outcome.stop_bind.mp (Outcome.stop_eq_outside.mpr hout) with h | ⟨ps, -, h⟩
    · exact serializeParts_inside ih (Outcome.stop_eq_outside.mp h)
    · split at h
      · cases h
      · exact putCell_inside (Outcome.stop_eq_outside.mp h)
  | other c => exact fun h => by cases h

/-! ### The top level -/

/-- What stands behind the marker is read like an element of a container. -/
theorem deserialize_embedded {api : MxApi} (hapi : api.Creates) (zlib : Zlib) {v : MxArray}
    (hk : v.All NodeKnown) (hs : v.All Shaped) {behind : Bytes}
    (hlen : (marked 8 v ++ behind).length < 2 ^ 64) {mem : Bytes} {pos : Nat} {tag : UInt8}
    (hmem : mem.length < 2 ^ 64) (hat : At mem pos (encode 8 v)) (htag : mem[pos]? = some tag) :
    deserialize api zlib false (some (marked 8 v ++ behind)) (marked 8 v).length
      = decode api false mem (tag, pos + 1) >>= fun v => .ok (.value v) := by
  have hfit : (encode 8 v).length < 2 ^ 64 := by
    rw [marked, List.length_append, List.length_append] at hlen
    omega
  have hfits : v.All (NodeFits (uintWidth false)) := fits_of_shaped v hs hfit
  obtain ⟨hbyte, hbody⟩ := at_cons.mp hat
  have hle : pos + (encode 8 v).length ≤ mem.length := hat.le_length (List.cons_ne_nil _ _)
  have hfuel : (encode 8 v).length ≤ mem.length + 1 := by omega
  have hnode : deserializeNode api false mem (mem.length + 1) v.tag (pos + 1) = expected v :=
    deserializeNode_encode hapi hmem v hk hs hfits hbody hfuel
  have htagv : tag = v.tag := by
    have hread := readByte_eq_ok.mp (readByte_of_at (ε := MexError) hbyte)
    rw [htag] at hread
    exact Option.some.inj hread
  rw [deserialize_marked false hapi zlib v hk hs hfits hlen (at_start _ _), htagv]
  exact congrArg (· >>= _) hnode.symm

/-- A sparse matrix is handed to the serializer of full arrays. -/
theorem getSerialFct_sparse (a : SparseArray) (rest : Bytes) :
    getSerialFct (phMatlab :: rest) (.sparse a) = .ok (.array, true) := rfl

/-- Whatever it makes of it, it does not begin like a sparse matrix. -/
theorem serializeArray_tag {dims : List Nat} {cls elementSize : Nat} {re : Bytes}
    {im : Option Bytes} {p : Serial}
    (h : serializeArray dims cls elementSize re im true = .ok p) : p.bytes[4]? = some idArray := by
  obtain ⟨reData, -, h⟩ := Outcome.bind_eq_ok h
  obtain ⟨imData, -, h⟩ := Outcome.bind_eq_ok h
  have hwritten : ∀ {written : Bytes} {nb : Nat},
      (if written.length > nb then .raised .notEnoughAllocated
        else .ok ⟨written, written.length⟩ : Result Serial) = .ok p → p.bytes = written := by
    intro written nb h
    split at h
    · cases h
    · cases h
      rfl
  rw [hwritten h]
  rfl

theorem serializeFull_head (a : FullArray) :
    serializeFull a true = serializeFull a false >>= fun p => .ok p.withHead := by
  rw [serializeFull_eq, serializeFull_eq, Outcome.ok_bind]
  apply congrArg Outcome.ok
  apply congrArg (Serial.mk _)
  show (headBytes true ++ encode 8 (.full a)).length
    = (headBytes false ++ encode 8 (.full a)).length + (headBytes true).length
  rw [List.length_append, List.length_append, length_headBytes false, Nat.add_comm]
  simp

/-- **Which values are written alike at the top level and inside a container.** -/
theorem sameEncoding_iff (v : Accepted) : SameEncoding v.val ↔ v.val.tag ≠ idSparse := by
  obtain ⟨v, hs, f, hf⟩ := v
  refine ⟨?_, ?_⟩
  · intro h htag
    cases v with
    | sparse a =>
      obtain ⟨s, hser, -, hrun⟩ := h.written (fun _ _ => .undefined) []
      rw [getSerialFct_sparse] at hser
      cases hser
      rw [serializeChild, serializeSparse_eq, Outcome.ok_bind] at hrun
      have hbyte := serializeArray_tag hrun
      cases hbyte
    | full a => exact absurd htag (by decide : idArray ≠ idSparse)
    | struct dims fields vals => exact absurd htag (by decide : idStruct ≠ idSparse)
    | cell dims vals => exact absurd htag (by decide : idCell ≠ idSparse)
    | other c => cases hf
  · intro htag
    refine ⟨fun outer rest => ?_, serializeChild_inside v, ?_⟩
    · cases v with
      | full a => exact ⟨.array, rfl, rfl, serializeFull_head a⟩
      | sparse a => exact absurd rfl htag
      | struct dims fields vals => exact ⟨.struct, rfl, rfl, serializeStruct_head dims fields vals⟩
      | cell dims vals => exact ⟨.cell, rfl, rfl, serializeCell_head dims vals⟩
      | other c => cases hf
    · intro api hapi zlib p hp behind hlen mem pos tag hmem hat hbyte
      obtain ⟨hk, rfl⟩ := serializeChild_ok v hp
      have hsize : (Serial.of (encode 8 v)).withHead.rnBytes = (marked 8 v).length := by
        show (encode 8 v).length + (headBytes true).length = _
        rw [marked, List.length_append, Nat.add_comm]
        rfl
      rw [hsize]
      exact deserialize_embedded hapi zlib hk hs hlen hmem hat hbyte

/-- **A sparse matrix at the top level**: `serializeArray` reads beyond its entries. -/
theorem sampleSparse_not_same :
    getSerialFct [phMatlab] (.sparse sampleSparse) = .ok (.array, true) ∧
      Serializer.array.run (fun _ _ => .undefined) (.sparse sampleSparse) = .outside ∧
      ¬SameEncoding (.sparse sampleSparse) := by
  refine ⟨rfl, rfl, fun h => ?_⟩
  obtain ⟨s, hser, -, hrun⟩ := h.written (fun _ _ => .undefined) []
  cases hser
  have hsame : (Outcome.outside : Result Serial) = .ok _ := hrun
  cases hsame

end Mym
