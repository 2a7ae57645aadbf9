import Mym.Extended

/-!
# Reading a compressed field

The frame that the commands write in place of a field is not transparent.  A field of `2 ^ 32` bytes or
more does not inflate, and its frame is dumped; a frame may announce more than there is memory for; and
where the field is marked, the frame is decoded in memory that ends with the field, and dumped in its
place when a node is turned down.

`ReadAlike` is what one would want: the frame and the field are read as one value, as one dump, or both
are rejected.  `deserialize_compressField_iff` says for which fields it holds.
-/

namespace Mym

/-- A value, a dump, or the rejection of what is of the kind `dj0`. -/
def Decided (r : Result Fetched) : Prop := (∃ x, r = .ok x) ∨ r = .raised .dj0

@[simp] theorem decided_ok (x : Fetched) : Decided (.ok x) := Or.inl ⟨x, rfl⟩

@[simp] theorem decided_raised {e : MexError} : Decided (.raised e) ↔ e = .dj0 := by
  simp [Decided]

@[simp] theorem not_decided_outside : ¬Decided .outside := by
  simp [Decided]

/-- What is wanted of the object `s` that stands for `p`: `p` is read to an answer, and `s` to the same
one. -/
def ReadAlike (api : MxApi) (zlib : Zlib) (fetched : Bool) (s p : Bytes) : Prop :=
  Decided (deserialize api zlib false (pointerTo fetched p) p.length) ∧
    deserialize api zlib false (pointerTo fetched s) s.length
      = deserialize api zlib false (pointerTo fetched p) p.length

/-- The fields whose frames have it: shorter than `2 ^ 32` bytes, with memory to inflate them, and if
marked then with a type byte and with nodes that the decoder accepts. -/
def Transparent (api : MxApi) (p : Bytes) : Prop :=
  p.length < 2 ^ 32 ∧ api.mxCalloc p.length 1 = true ∧ (Marked p → RootIs p (Accepts api false p))

section

variable {api : MxApi} {zlib : Zlib}

theorem memoryOf_append (fetched : Bool) (b : Bytes) : ∃ more, memoryOf fetched b = b ++ more := by
  cases fetched with
  | false => exact ⟨[], (List.append_nil b).symm⟩
  | true => exact ⟨[0], rfl⟩

theorem pointerTo_of_ne (fetched : Bool) {b : Bytes} (h : b ≠ []) :
    pointerTo fetched b = some (memoryOf fetched b) := if_pos (Or.inr h)

theorem framed_memoryOf {fetched : Bool} {b : Bytes} (h : 6 ≤ b.length) :
    Framed (memoryOf fetched b) ↔ Framed b := by
  obtain ⟨more, hmore⟩ := memoryOf_append fetched b
  rw [hmore]
  refine ⟨fun hp => ?_, fun hp => hp.trans (List.prefix_append b more)⟩
  exact List.prefix_of_prefix_length_le hp (List.prefix_append b more) h

/-- The frame of a field whose length does not fit 32 bits is dumped. -/
theorem deserialize_frame_of_ge (hz : zlib.Inverts) {p c : Bytes} (hc : zlib.compress p = some c)
    (hp : p.length < 2 ^ 64) (hge : 2 ^ 32 ≤ p.length) (hmemory : api.mxCalloc p.length 1 = true)
    (behind : Bytes) :
    deserialize api zlib false (some (frame p.length c ++ behind)) (frame p.length c).length
      = .ok (.dump (frame p.length c)) := by
  have hat : At (frame p.length c ++ behind) 0 (frame p.length c) := at_start _ _
  obtain ⟨h1, -⟩ := at_append.mp hat
  obtain ⟨h2, -⟩ := at_append.mp h1
  have hd : strcasecmpEq (frame p.length c ++ behind) 0 dj0Id = .ok false :=
    sameAt_of_head_ne toLower (at_cons.mp h2).1 (by decide)
  have hm : strcmpEq (frame p.length c ++ behind) 0 idMatlab = .ok false :=
    sameAt_of_head_ne id (at_cons.mp h2).1 (by decide)
  have hdump : memoryDump (frame p.length c ++ behind) 0 (frame p.length c).length
      = .ok (.dump (frame p.length c)) := by
    rw [memoryDump, readBytes_of_at hat rfl]
    rfl
  show inflate api zlib false (frame p.length c ++ behind) _ >>= _ = _
  rw [inflate_frame hz hc hp hmemory, if_neg (Nat.not_lt.mpr hge), Outcome.ok_bind]
  dsimp only
  rw [deserializeBuffer, hd, Outcome.ok_bind, if_neg (by decide), hm, Outcome.ok_bind,
    if_neg (by decide), hdump]

/-- The frame of a field for which there is no memory. -/
theorem deserialize_frame_refused {p c : Bytes} (hp : p.length < 2 ^ 64)
    (hmemory : api.mxCalloc p.length 1 = false) (behind : Bytes) :
    deserialize api zlib false (some (frame p.length c ++ behind)) (frame p.length c).length
      = .raised .matlab := by
  obtain ⟨hin, hlen⟩ := frame_announces hp c behind
  have hrefused : FrameRefused api false (frame p.length c ++ behind) :=
    ⟨framed_frame _ c behind, hin, by rw [hlen]; exact hmemory⟩
  rw [deserialize, inflate_raised.mpr ⟨rfl, hrefused⟩]
  rfl

/-- A field that is dumped is dumped as a whole. -/
theorem deserialize_dump {fetched : Bool} {p bs : Bytes} (hne : p ≠ [])
    (hp : ¬Framed (memoryOf fetched p))
    (h : deserialize api zlib false (some (memoryOf fetched p)) p.length = .ok (.dump bs)) :
    bs = p := by
  obtain ⟨s, d, pos, hfall⟩ := fallsBack_of_dump h
  have hobject : s = .object := by
    rcases inflated_unframed api false [] zlib hp p.length with hout | ⟨hs, -⟩
    · cases hout.symm.trans hfall.inflated
    · cases hs.symm.trans hfall.inflated
      rfl
  subst hobject
  rw [hfall.eq] at h
  cases hfall with
  | unmarked | caught =>
    rw [Source.size, Source.memory, memoryDump_memoryOf] at h
    cases h
    rfl
  | unknown =>
    have hlen := (length_memoryOf fetched p).2
    have hpos := List.length_pos_of_ne_nil hne
    rw [Source.size, Source.memory, memoryDump_outside (by omega) (by omega)] at h
    cases h

/-- A field is read to an answer by itself, without its fallback, exactly if it is unmarked or
accepted. -/
theorem decided_iff {p : Bytes} (hp : ¬Framed p) (hsix : 6 ≤ p.length) :
    Decided (deserialize api zlib false (some p) p.length) ∧ ¬Caught api false p ↔
      (Marked p → RootIs p (Accepts api false p)) := by
  have hfour : 4 < p.length := by omega
  have htag := List.getElem?_eq_getElem hfour
  have hread : (readByte p 4 : Result UInt8) = .ok p[4] := readByte_eq_ok.mpr htag
  have huncaught : ¬Marked p → ¬Caught api false p := fun hm hc => hm hc.1
  rcases deserialize_cases api zlib false hp p.length with
    ⟨ht, -⟩ | ⟨-, hm, he⟩ | ⟨-, hm, he⟩ | ⟨-, hm, he⟩
  · rcases ht with h | h | h
    · exact absurd h.2 (Nat.not_lt.mpr hsix)
    · exact absurd h.2 (Nat.not_lt.mpr hfour.le)
    · exact absurd h.2 (Nat.not_lt.mpr hfour.le)
  · exact iff_of_true ⟨Or.inr he, huncaught hm⟩ fun h => absurd h hm
  · rw [he, deserializeMarked, hread, Outcome.ok_bind]
    have hroot : RootIs p (Accepts api false p) ↔ isTag p[4] = true ∧ Accepts api false p (p[4], 5) := by
      refine ⟨?_, fun h => ⟨p[4], htag, h.1, h.2⟩⟩
      rintro ⟨tag, h, hkind, hacc⟩
      cases htag.symm.trans h
      exact ⟨hkind, hacc⟩
    rw [forall_prop_of_true hm, hroot, accepts_iff]
    by_cases hkind : isTag p[4] = true
    · rw [if_pos hkind, and_iff_right hkind]
      cases hd : decode api false p (p[4], 5) with
      | ok v =>
        refine iff_of_true ⟨Or.inl ⟨_, rfl⟩, ?_⟩ ⟨v, rfl⟩
        rintro ⟨-, tag, h, -, hrefused⟩
        cases htag.symm.trans h
        obtain ⟨e, hraised⟩ := decode_raised.mpr hrefused
        cases hd.symm.trans hraised
      | raised e =>
        refine iff_of_false (fun h => h.2 ?_) ?_
        · exact ⟨hm, p[4], htag, hkind, decode_raised.mp ⟨e, hd⟩⟩
        · rintro ⟨v, hv⟩
          cases hv
      | _ =>
        refine iff_of_false (fun h => ?_) ?_
        · rcases h.1 with ⟨x, hx⟩ | hx
          · cases hx
          · cases hx
        · rintro ⟨v, hv⟩
          cases hv
    · rw [if_neg hkind, memoryDump_outside (by omega) (by omega)]
      exact iff_of_false (fun h => not_decided_outside h.1) fun h => hkind h.1
  · rw [he, memoryDump_self]
    exact iff_of_true ⟨decided_ok _, huncaught hm⟩ fun h => absurd h hm

/-- **When a frame is read as the field it replaces.** -/
theorem deserialize_compressField_iff (hz : zlib.Inverts) {ratioTest : Nat → Nat → Bool}
    {pec : Bool} {p s : Bytes} (hs : compressField zlib ratioTest pec p = .ok s) (hne : s ≠ p)
    (hlen : p.length < 2 ^ 64) (hp : ¬Framed p) (fetched : Bool) :
    ReadAlike api zlib fetched s p ↔ Transparent api p := by
  obtain ⟨hlong, c, hc, rfl⟩ := compressField_cases hs hne
  have hsix : 6 ≤ p.length := Nat.le_trans (by decide) (Nat.le_of_lt hlong)
  have hpne : p ≠ [] := List.ne_nil_of_length_pos (by omega)
  have hframe : frame p.length c ≠ [] := List.cons_ne_nil _ _
  obtain ⟨more, hmore⟩ := memoryOf_append fetched (frame p.length c)
  have hpmem : ¬Framed (memoryOf fetched p) := fun h => hp ((framed_memoryOf hsix).mp h)
  rw [ReadAlike, pointerTo_of_ne fetched hframe, pointerTo_of_ne fetched hpne, hmore, Transparent]
  cases hmemory : api.mxCalloc p.length 1 with
  | false =>
    rw [deserialize_frame_refused hlen hmemory]
    refine iff_of_false (fun h => ?_) fun h => absurd h.2.1 (by decide)
    rw [← h.2, decided_raised] at h
    cases h.1
  | true =>
    by_cases hlt : p.length < 2 ^ 32
    case neg =>
      rw [deserialize_frame_of_ge hz hc hlen (Nat.not_lt.mp hlt) hmemory]
      refine iff_of_false (fun h => hp ?_) fun h => hlt h.1
      have hdump := deserialize_dump hpne hpmem h.2.symm
      have hframed := framed_frame p.length c []
      rwa [List.append_nil, hdump] at hframed
    have hdecided : Decided (deserialize api zlib false (some p) p.length) ∧ ¬Caught api false p ↔
        (Marked p → RootIs p (Accepts api false p)) := decided_iff hp hsix
    rw [deserialize_frame hz hc hlt hmemory, and_iff_right hlt, and_iff_right rfl, ← hdecided]
    obtain ⟨more', hmore'⟩ := memoryOf_append fetched p
    have hstays : Outcome.Stays (deserialize api zlib false (some p) p.length)
        (deserialize api zlib false (some (p ++ more')) p.length) :=
      deserialize_stays more' hp p.length
    rw [← hmore'] at hstays
    by_cases hcaught : Caught api false p
    · refine iff_of_false (fun h => ?_) fun h => h.2 hcaught
      have hself : deserialize api zlib false (some p) p.length = .ok (.dump p) := by
        rw [deserialize_unframed hp hsix, deserializeBuffer_caught hcaught, memoryDump_self]
      rw [hstays.ok hself, deserializeBuffer_caught hcaught] at h
      exact memoryDump_ne (framed_frame _ c more) hp hsix h.2
    · have hself : deserialize api zlib false (some p) p.length
          = deserializeBuffer api false p p p.length := deserialize_unframed hp hsix p.length
      rw [deserializeBuffer_congr hcaught _ p, ← hself, and_iff_left hcaught]
      constructor
      · intro h
        rw [h.2]
        exact h.1
      · intro h
        have hsame := hstays.eq fun hout => by
          rw [hout] at h
          exact not_decided_outside h
        rw [hsame]
        exact ⟨h, rfl⟩

end

/-! ### Runs of zeros -/

theorem frame_ne_zeros (n m : Nat) (c : Bytes) : frame n c ≠ List.replicate m 0 := by
  intro h
  have hframed := framed_frame n c []
  rw [List.append_nil, h] at hframed
  exact not_framed_zeros m hframed

/-- A run of 1001 zeros is read as itself from its frame. -/
theorem deserialize_compressField_zeros :
    ReadAlike documentedApi runZlib true (frame 1001 (0 :: leBytes 8 1001))
      (List.replicate 1001 0) := by
  have hlen := List.length_replicate (n := 1001) (a := (0 : UInt8))
  refine (deserialize_compressField_iff runZlib_inverts (compressField_zeros (by decide))
    (frame_ne_zeros _ _ _) (by rw [hlen]; decide) (not_framed_zeros 1001) true).mpr ⟨?_, ?_, ?_⟩
  · rw [hlen]
    decide
  · exact documentedApi_creates.mxCalloc (by rw [hlen]; decide)
  · rintro ⟨t, ht⟩
    have hmem : (109 : UInt8) ∈ List.replicate 1001 (0 : UInt8) := by
      rw [← ht]
      exact List.mem_cons_self
    exact absurd (List.eq_of_mem_replicate hmem) (by decide)

/-- **A field of 4 GiB is lost in its frame.**  The room zlib is told about is zero bytes. -/
theorem deserialize_frame_not_transparent :
    minLenZlib < (List.replicate (2 ^ 32) (0 : UInt8)).length ∧
      (List.replicate (2 ^ 32) (0 : UInt8)).length < 2 ^ 64 ∧
      ¬Framed (List.replicate (2 ^ 32) 0) ∧
      compressField runZlib savesTenth true (List.replicate (2 ^ 32) 0)
        = .ok (frame (2 ^ 32) (0 :: leBytes 8 (2 ^ 32))) ∧
      deserialize documentedApi runZlib false
          (pointerTo true (frame (2 ^ 32) (0 :: leBytes 8 (2 ^ 32))))
          (frame (2 ^ 32) (0 :: leBytes 8 (2 ^ 32))).length
        = .ok (.dump (frame (2 ^ 32) (0 :: leBytes 8 (2 ^ 32)))) ∧
      ¬ReadAlike documentedApi runZlib true (frame (2 ^ 32) (0 :: leBytes 8 (2 ^ 32)))
        (List.replicate (2 ^ 32) 0) := by
  have hlen := List.length_replicate (n := 2 ^ 32) (a := (0 : UInt8))
  have hlong : minLenZlib < 2 ^ 32 := by decide
  have hc : runZlib.compress (List.replicate (2 ^ 32) 0) = some (0 :: leBytes 8 (2 ^ 32)) := by
    simp only [runZlib, hlen, if_true]
  have hframe : deserialize documentedApi runZlib false (some (frame _ _ ++ [0])) _ = .ok (.dump _) :=
    deserialize_frame_of_ge runZlib_inverts hc (by rw [hlen]; decide) (by rw [hlen])
      (documentedApi_creates.mxCalloc (by rw [hlen]; decide)) [0]
  rw [hlen] at hframe
  have hpointer : pointerTo true (frame (2 ^ 32) (0 :: leBytes 8 (2 ^ 32)))
      = some (frame (2 ^ 32) (0 :: leBytes 8 (2 ^ 32)) ++ [0]) := rfl
  have hne : List.replicate (2 ^ 32) (0 : UInt8) ≠ [] :=
    List.ne_nil_of_length_pos (by rw [hlen]; decide)
  have hzeros : ¬Framed (memoryOf true (List.replicate (2 ^ 32) 0)) := fun h =>
    not_framed_zeros _ ((framed_memoryOf (by rw [hlen]; decide)).mp h)
  rw [ReadAlike, hpointer, hframe, pointerTo_of_ne true hne]
  refine ⟨by rw [hlen]; exact hlong, by rw [hlen]; decide, not_framed_zeros _,
    compressField_zeros hlong, rfl, fun h => ?_⟩
  exact frame_ne_zeros _ _ _ (deserialize_dump hne hzeros h.2.symm)

end Mym
