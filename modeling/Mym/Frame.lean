import Mym.Header

/-!
# Compressed fields

The `query` and `serialize` commands replace a long field by a frame, `ZL123`, a NUL, the
eight-byte length of the field and the compressed field, when the frame is enough shorter
(`compressField`, the body of both loops).  `deserialize` takes the frame apart again.

It allocates room for the whole length, which ends the call when there is no memory for it, but tells
zlib only the low 32 bits, so a field of `2 ^ 32` bytes or more does not inflate
(`inflate_frame`).  When a nested decoder raises, the pointer goes back to the frame while the length
stays that of the field (`deserializeBuffer_caught`).
-/

namespace Mym

/-! ### Writing -/

def minLenZlib : Nat := 1000

/-- `ZL123`, a NUL, the length of the field, the compressed field. -/
def frame (plen : Nat) (pcmp : Bytes) : Bytes :=
  zlibId ++ [0] ++ leBytes sizeofUint64 plen ++ pcmp

/-- What the loops over the fields do with one that is serialized to `pd`.  `ratioTest` is
the floating-point comparison of the field's length with the length of its compressed form. -/
def compressField (zlib : Zlib) (ratioTest : (plen len : Nat) → Bool) (pec : Bool) (pd : Bytes) :
    Result Bytes :=
  if pec ∧ minLenZlib < pd.length then
    match zlib.compress pd with
    | none => .raised .compressionFailed
    | some pcmp => if ratioTest pd.length pcmp.length then .ok (frame pd.length pcmp) else .ok pd
  else .ok pd

/-- A field that is replaced is longer than a thousand bytes, and replaced by its frame. -/
theorem compressField_cases {zlib : Zlib} {ratioTest : Nat → Nat → Bool} {pec : Bool}
    {p s : Bytes} (h : compressField zlib ratioTest pec p = .ok s) (hne : s ≠ p) :
    minLenZlib < p.length ∧ ∃ c, zlib.compress p = some c ∧ s = frame p.length c := by
  unfold compressField at h
  split at h
  · next hlong =>
    split at h
    · cases h
    · next c hc =>
      split at h
      · cases h
        exact ⟨hlong.2, c, hc, rfl⟩
      · cases h
        exact absurd rfl hne
  · cases h
    exact absurd rfl hne

/-! ### Reading a frame -/

section

variable {api : MxApi} {zlib : Zlib}

/-- The object begins with `ZL123` and a NUL. -/
def Framed (p : Bytes) : Prop := zlibId ++ [0] <+: p

instance (p : Bytes) : Decidable (Framed p) := inferInstanceAs (Decidable (_ <+: _))

/-- The object carries the marker and the type byte of a node that the decoders turn
down. -/
def Caught (api : MxApi) (use32 : Bool) (p : Bytes) : Prop :=
  idMatlab ++ [0] <+: p ∧ ∃ tag, p[4]? = some tag ∧ isTag tag = true ∧ Refused api use32 p (tag, 5)

theorem framed_frame (n : Nat) (c behind : Bytes) : Framed (frame n c ++ behind) := by
  refine ⟨leBytes sizeofUint64 n ++ c ++ behind, ?_⟩
  simp only [frame, List.append_assoc]

theorem strcmpEq_zlibId {p : Bytes} (h : 6 ≤ p.length) :
    strcmpEq p 0 zlibId = .ok (decide (Framed p)) := by
  rw [strcmpEq, sameAt_of_le id (Nat.le_trans (Nat.le_of_eq rfl) h)]
  simp only [List.map_id, List.drop_zero]
  rfl

/-- The length that a frame announces. -/
def frameLength (use32 : Bool) (mem : Bytes) : Nat := wordAt mem (zlibId.length + 1) (uintWidth use32)

def FrameLengthInside (use32 : Bool) (mem : Bytes) : Prop :=
  Inside mem (zlibId.length + 1) (uintWidth use32)

/-- The object is a frame, and there is no memory for the length that it announces. -/
def FrameRefused (api : MxApi) (use32 : Bool) (mem : Bytes) : Prop :=
  Framed mem ∧ FrameLengthInside use32 mem ∧ api.mxCalloc (frameLength use32 mem) 1 = false

theorem strcmpEq_zlibId_iff {mem : Bytes} : strcmpEq mem 0 zlibId = .ok true ↔ Framed mem := by
  rw [strcmpEq, sameAt_eq_true, List.map_id, List.map_id, List.drop_zero]
  rfl

/-- The call ends in front of zlib only where there is no memory. -/
theorem inflate_raised {use32 : Bool} {mem : Bytes} {n : Nat} {e : MexError} :
    inflate api zlib use32 mem n = .raised e ↔ e = .matlab ∧ FrameRefused api use32 mem := by
  have hframed : strcmpEq mem 0 zlibId = .ok true ↔ Framed mem := strcmpEq_zlibId_iff
  have hstop : ∀ flag, strcmpEq mem 0 zlibId = .ok flag → (flag = true ↔ Framed mem) := by
    intro flag hflag
    rw [← hframed, hflag, Outcome.ok.injEq]
  rw [FrameRefused, FrameLengthInside, frameLength, inflate, ← Outcome.stop_eq_raised,
    Outcome.stop_bind]
  constructor
  · intro h
    rcases h with h | ⟨flag, hflag, h⟩
    · exact absurd (Outcome.stop_eq_raised.mp h) (sameAt_ne_raised _ _ _ _ e)
    · cases flag with
      | false => cases h
      | true =>
        rw [if_pos rfl, Outcome.stop_bind, readUint_stop] at h
        rcases h with ⟨h, -⟩ | ⟨r, hr, h⟩
        · cases h
        · obtain ⟨hin, rfl⟩ := readUint_eq_ok.mp hr
          dsimp only [uncompressWindow] at h
          split at h
          · split at h
            · cases h
            · cases h
          · next hc =>
            cases h
            exact ⟨rfl, (hstop true hflag).mp rfl, hin, Bool.eq_false_of_not_eq_true hc⟩
  · intro h
    obtain ⟨rfl, hf, hin, hc⟩ := h
    refine Or.inr ⟨true, hframed.mpr hf, ?_⟩
    rw [if_pos rfl, readUint_eq_ok.mpr ⟨hin, rfl⟩, Outcome.ok_bind]
    dsimp only
    rw [if_neg (by rw [hc]; exact Bool.false_ne_true)]
    rfl

/-- A frame that has been written announces the length of the field. -/
theorem frame_announces {n : Nat} (hn : n < 2 ^ 64) (c behind : Bytes) :
    FrameLengthInside false (frame n c ++ behind) ∧ frameLength false (frame n c ++ behind) = n := by
  have hat : At (frame n c ++ behind) 0 (frame n c) := at_start _ _
  obtain ⟨h1, -⟩ := at_append.mp hat
  obtain ⟨-, h2⟩ := at_append.mp h1
  have hword : readWord (ε := MexError) (frame n c ++ behind) (zlibId.length + 1) (uintWidth false)
      = .ok n := readWord_of_at (w := uintWidth false) h2 hn
  obtain ⟨hin, hlen⟩ := readWord_eq_ok.mp hword
  exact ⟨hin, hlen.symm⟩

/-- What does not fit the room that is left is not inflated. -/
theorem inflate_frame (hz : zlib.Inverts) {p c : Bytes} (hc : zlib.compress p = some c)
    (hp : p.length < 2 ^ 64) (hmemory : api.mxCalloc p.length 1 = true) (behind : Bytes) :
    inflate api zlib false (frame p.length c ++ behind) (frame p.length c).length
      = if p.length < 2 ^ 32 then .ok (p, p.length)
        else .ok (frame p.length c ++ behind, (frame p.length c).length) := by
  obtain ⟨hin, hlen⟩ := frame_announces hp c behind
  have hread := readUint_eq_ok.mpr ⟨hin, rfl⟩
  rw [← frameLength, hlen] at hread
  have hdrop : ((frame p.length c ++ behind).drop (zlibId.length + 1 + uintWidth false)).take
      (frame p.length c).length = c ++ behind.take 14 := by
    have hhead : (zlibId ++ [0] ++ leBytes sizeofUint64 p.length).length = 14 := by
      rw [List.length_append, length_leBytes]
      rfl
    have : (frame p.length c).length = c.length + 14 := by
      rw [frame, List.length_append, hhead, Nat.add_comm]
    rw [this, frame, List.append_assoc]
    show (((zlibId ++ [0] ++ leBytes sizeofUint64 p.length) ++ (c ++ behind)).drop 14).take _ = _
    rw [List.drop_left' hhead, List.take_length_add_append]
  rw [inflate, strcmpEq_zlibId_iff.mpr (framed_frame _ _ _), Outcome.ok_bind, if_pos rfl, hread,
    Outcome.ok_bind]
  dsimp only [uncompressWindow]
  rw [if_pos hmemory, hdrop, hz hc hp]
  by_cases hlt : p.length < 2 ^ 32
  · rw [Nat.mod_eq_of_lt hlt, if_pos (Nat.le_refl _), if_pos hlt]
    simp
  · have hmod : ¬p.length ≤ p.length % 2 ^ 32 := by
      have := Nat.mod_lt p.length (by decide : 2 ^ 32 > 0)
      omega
    rw [if_neg hmod, if_neg hlt]

/-! ### Reading the payload -/

/-- Unless a nested decoder raises, what is dumped does not depend on where the object is. -/
theorem deserializeBuffer_congr {use32 : Bool} {buf : Bytes} (h : ¬Caught api use32 buf)
    (mem mem' : Bytes) (n : Nat) :
    deserializeBuffer api use32 mem buf n = deserializeBuffer api use32 mem' buf n := by
  apply Outcome.bind_congr
  intro isDj0 _
  cases isDj0 with
  | true => rfl
  | false =>
    apply Outcome.bind_congr
    intro isMatlab hm
    cases isMatlab with
    | false => rfl
    | true =>
      apply Outcome.bind_congr
      intro tag htag
      have hmarked : idMatlab ++ [0] <+: buf := by
        have := (sameAt_eq_true id _ _ _).mp hm
        rwa [List.map_id, List.map_id, List.drop_zero] at this
      cases ht : isTag tag with
      | false => rfl
      | true =>
        show catchNested mem n (decode api use32 buf (tag, 5))
          = catchNested mem' n (decode api use32 buf (tag, 5))
        cases hd : decode api use32 buf (tag, 5) with
        | raised e =>
          exact absurd ⟨hmarked, tag, readByte_eq_ok.mp htag, ht, decode_raised.mp ⟨e, hd⟩⟩ h
        | _ => rfl

/-- When a nested decoder raises, the object itself is dumped, with the length of the buffer. -/
theorem deserializeBuffer_caught {use32 : Bool} {buf : Bytes} (h : Caught api use32 buf)
    (mem : Bytes) (n : Nat) :
    deserializeBuffer api use32 mem buf n = memoryDump mem 0 n := by
  obtain ⟨⟨t, ht⟩, tag, htag, hisTag, href⟩ := h
  have hat : At buf 0 (idMatlab ++ [0]) := ⟨t, ht⟩
  have hd : strcasecmpEq buf 0 dj0Id = .ok false :=
    sameAt_of_head_ne toLower (at_cons.mp hat).1 (by decide)
  have hm : strcmpEq buf 0 idMatlab = .ok true := sameAt_of_at id hat
  obtain ⟨e, he⟩ := decode_raised.mpr href
  have htag : (readByte buf (idMatlab.length + 1) : Result UInt8) = .ok tag :=
    readByte_eq_ok.mpr htag
  rw [deserializeBuffer, hd, Outcome.ok_bind, if_neg (by decide), hm, Outcome.ok_bind, if_pos rfl]
  dsimp only
  rw [htag, Outcome.ok_bind, if_pos hisTag]
  show catchNested mem n (decode api use32 buf (tag, 5)) = _
  rw [he]
  rfl

theorem memoryDump_ne_raised (mem : Bytes) (pos length : Nat) (e : MexError) :
    memoryDump mem pos length ≠ .raised e := by
  intro h
  exact readBytes_ne_raised _ _ _ e (Outcome.bind_ok_eq_raised.mp h)

theorem catchNested_ne_raised (mem : Bytes) (length : Nat) (x : Result MxArray) (e : MexError) :
    catchNested mem length x ≠ .raised e := by
  cases x with
  | raised e' => exact memoryDump_ne_raised mem 0 length e
  | _ =>
    intro h
    cases h

/-- Behind the inflation, what is of the kind `dj0` is all that is rejected. -/
theorem deserializeBuffer_raised {use32 : Bool} {mem buf : Bytes} {n : Nat} {e : MexError} :
    deserializeBuffer api use32 mem buf n = .raised e ↔
      e = .dj0 ∧ strcasecmpEq buf 0 dj0Id = .ok true := by
  rw [deserializeBuffer]
  cases hdj0 : strcasecmpEq buf 0 dj0Id with
  | ok same =>
    cases same with
    | true =>
      rw [Outcome.ok_bind, if_pos rfl, Outcome.raised.injEq]
      exact ⟨fun h => ⟨h.symm, rfl⟩, fun h => h.1.symm⟩
    | false =>
      refine ⟨fun he => absurd he ?_, fun h => by cases h.2⟩
      apply Outcome.bind_ne_raised (sameAt_ne_raised _ _ _ _ e)
      intro matlab _
      split
      · apply Outcome.bind_ne_raised (readByte_ne_raised _ _ e)
        intro tag _
        split
        · exact catchNested_ne_raised _ _ _ e
        · exact memoryDump_ne_raised _ _ _ e
      · exact memoryDump_ne_raised _ _ _ e
  | raised e' => exact absurd hdj0 (sameAt_ne_raised _ _ _ _ e')
  | _ => exact ⟨nofun, fun h => by cases h.2⟩

theorem memoryDump_self (p : Bytes) : memoryDump p 0 p.length = .ok (.dump p) := by
  rw [memoryDump, readBytes_of_at (at_self p) rfl]
  rfl

/-- A dump that begins at a frame is not one of a buffer without the `ZL123`. -/
theorem memoryDump_ne {p mem : Bytes} (hmem : Framed mem) (hp : ¬Framed p) {n : Nat}
    (hn : 6 ≤ n) : memoryDump mem 0 n ≠ .ok (.dump p) := by
  intro h
  obtain ⟨bs, hbs, he⟩ := Outcome.bind_eq_ok h
  obtain ⟨-, htake⟩ := readBytes_ok_inside hbs
  cases he
  refine hp ?_
  rw [htake, List.drop_zero]
  exact List.prefix_take_iff.mpr ⟨hmem, hn⟩

/-- A field that is inflated is decoded in place of its frame. -/
theorem deserialize_frame (hz : zlib.Inverts) {p c : Bytes} (hc : zlib.compress p = some c)
    (hlt : p.length < 2 ^ 32) (hmemory : api.mxCalloc p.length 1 = true) (behind : Bytes) :
    deserialize api zlib false (some (frame p.length c ++ behind)) (frame p.length c).length
      = deserializeBuffer api false (frame p.length c ++ behind) p p.length := by
  show inflate api zlib false (frame p.length c ++ behind) _ >>= _ = _
  rw [inflate_frame hz hc (Nat.lt_trans hlt (by decide)) hmemory, if_pos hlt]
  rfl

theorem deserialize_unframed {p : Bytes} (hp : ¬Framed p) (hlen : 6 ≤ p.length) (n : Nat) :
    deserialize api zlib false (some p) n = deserializeBuffer api false p p n := by
  rw [deserialize, inflate, strcmpEq_zlibId hlen, decide_eq_false hp]
  rfl

end

/-! ### Runs of zeros -/

/-- The ratio test in whole numbers: a frame must save a tenth. -/
def savesTenth (plen len : Nat) : Bool := decide (11 * (6 + sizeofUint64 + len) < 10 * plen)

theorem not_framed_zeros (n : Nat) : ¬Framed (List.replicate n 0) := by
  rintro ⟨t, ht⟩
  have hmem : (90 : UInt8) ∈ List.replicate n (0 : UInt8) := by
    rw [← ht]
    exact List.mem_cons_self
  exact absurd (List.eq_of_mem_replicate hmem) (by decide)

theorem compressField_zeros {n : Nat} (h : minLenZlib < n) :
    compressField runZlib savesTenth true (List.replicate n 0)
      = .ok (frame n (0 :: leBytes 8 n)) := by
  have hratio : savesTenth n (leBytes 8 n).length.succ = true := by
    rw [length_leBytes]
    exact decide_eq_true (by unfold minLenZlib at h; unfold sizeofUint64; omega)
  simp only [compressField, runZlib, List.length_replicate, h, and_self, if_true, List.length_cons]
  rw [if_pos hratio]

end Mym
