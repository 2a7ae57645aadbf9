import Mym.Binary
import Mym.EntryPoint
import Mym.Statement

/-!
# The serialize command

`SERIALIZE` runs the placeholder scan of the query command and hands the serialized fields back.
Its loop compresses into one buffer, which grows and is never cleared; the query command has
a copy of the loop.

A call to `compress` has room for `compressBound` of its input, so that it succeeds, and what it
leaves is all that is copied out of the buffer (`compressInto_spec`).  The loop therefore does to
each field what `compressField` does (`serializeLoop_eq`), and `serialize_each` follows.
-/

namespace Mym

/-! ### The buffer -/

/-- `pcmp` and `cmp_buf_len` -/
structure Scratch where
  pcmp : Bytes
  cmpBufLen : Nat

/-- Ten thousand bytes, zeroed. -/
def Scratch.start : Scratch := ⟨List.replicate 10000 0, 10000⟩

/-- `mxRealloc`, if the buffer is too short. -/
def Scratch.grow (s : Scratch) (maxLen : Nat) : Scratch :=
  if s.cmpBufLen < maxLen then ⟨s.pcmp ++ List.replicate (maxLen - s.pcmp.length) 0, maxLen⟩ else s

/-- The recorded length is that of the buffer. -/
def Scratch.Sound (s : Scratch) : Prop := s.pcmp.length = s.cmpBufLen

theorem Scratch.sound_start : Scratch.start.Sound := List.length_replicate

theorem Scratch.Sound.grow {s : Scratch} (h : s.Sound) (maxLen : Nat) :
    (s.grow maxLen).Sound ∧ maxLen ≤ (s.grow maxLen).cmpBufLen := by
  unfold Scratch.grow
  split
  · next hlt =>
    refine ⟨?_, Nat.le_refl _⟩
    show (s.pcmp ++ _).length = maxLen
    rw [List.length_append, List.length_replicate, h]
    omega
  · next hge => exact ⟨h, Nat.not_lt.mp hge⟩

section

variable (zlib : Zlib) (ratioTest : (plen len : Nat) → Bool)
  (outer : CStr → Serializer → MxArray → Result Serial) (escape : Bytes → Bytes)
  (compressTo : (capacity : Nat) → Bytes → Option Bytes) (compressBound : Nat → Nat)
  (mxGetString : MxArray → Option CStr)

/-- What zlib promises about `compress`: with room for `compressBound` of its input it succeeds, and
the result is that of the input. -/
structure Compresses : Prop where
  result : ∀ src cap, compressBound src.length ≤ cap →
    ∃ c, compressTo cap src = some c ∧ zlib.compress src = some c ∧ c.length ≤ cap

/-- The compression of one field, with the buffer it leaves. -/
def compressInto (pec : Bool) (pd : Bytes) (s : Scratch) : Result (Bytes × Scratch) :=
  if pec ∧ minLenZlib < pd.length then
    let s := s.grow (compressBound pd.length)
    match compressTo s.cmpBufLen pd with
    | none => .raised .compressionFailed
    | some c => do
      let pcmp ← writeBytes s.pcmp 0 c
      if ratioTest pd.length c.length then do
        let bs ← readBytes pcmp 0 c.length
        .ok (frame pd.length bs.1, ⟨pcmp, s.cmpBufLen⟩)
      else .ok (pd, ⟨pcmp, s.cmpBufLen⟩)
  else .ok (pd, s)

/-- The loop over the fields. -/
def serializeLoop (mem : Bytes) : Scratch → List Field → Result (List Bytes)
  | _, [] => .ok []
  | s, f :: fs => do
    let rpArg ← readCStr mem f.pa
    let p ← f.pf.run (outer rpArg) f.arg
    let pd ← readBytes p.bytes 0 p.rnBytes
    let r ← compressInto ratioTest compressTo compressBound f.pec pd.1 s
    let pds ← serializeLoop mem r.2 fs
    .ok (r.1 :: pds)

/-- `SERIALIZE`: the cells of the output. -/
def serializeCells (query : Query) (args : List MxArray) : Result (List Bytes) := do
  let mem := query.text.1 ++ [0]
  if args.length = 0 then .ok []
  else do
    let s ← scan mem args.length
    if s.nac ≠ args.length then .raised .placeholderNumber
    else do
      let es ← entries s 0 s.nac args
      let r ← readTypes mem es
      serializeLoop ratioTest outer compressTo compressBound r.1 Scratch.start r.2

variable {zlib ratioTest outer escape compressTo compressBound mxGetString}

/-! ### One field -/

theorem writeBytes_start {mem bs : Bytes} (h : bs.length ≤ mem.length) :
    writeBytes (ε := MexError) mem 0 bs = .ok (bs ++ mem.drop bs.length) :=
  writeBytes_append (a := []) rfl h

theorem readBytes_start (a b : Bytes) : readBytes (ε := MexError) (a ++ b) 0 a.length = .ok ⟨a, rfl⟩ :=
  readBytes_append (a := []) rfl rfl

variable (ratioTest) in
/-- **One field.**  The buffer has room, and what is copied out of it is what has just been
compressed. -/
theorem compressInto_spec (hz : Compresses zlib compressTo compressBound) {s : Scratch} (hs : s.Sound)
    (pec : Bool) (pd : Bytes) :
    ∃ b s', s'.Sound ∧ compressField zlib ratioTest pec pd = .ok b ∧
      compressInto ratioTest compressTo compressBound pec pd s = .ok (b, s') := by
  unfold compressInto compressField
  split
  · obtain ⟨hgrown, hroom⟩ := hs.grow (compressBound pd.length)
    obtain ⟨c, hto, hc, hle⟩ := hz.result pd _ hroom
    have hfits : c.length ≤ (s.grow (compressBound pd.length)).pcmp.length := by
      rw [hgrown]
      exact hle
    have hkept : Scratch.Sound ⟨c ++ (s.grow (compressBound pd.length)).pcmp.drop c.length,
        (s.grow (compressBound pd.length)).cmpBufLen⟩ := by
      show (c ++ _).length = _
      rw [List.length_append, List.length_drop, ← hgrown]
      omega
    rw [hc]
    dsimp only
    rw [hto]
    dsimp only
    rw [writeBytes_start hfits, Outcome.ok_bind]
    split
    · refine ⟨_, _, hkept, rfl, ?_⟩
      rw [readBytes_start, Outcome.ok_bind]
    · exact ⟨_, _, hkept, rfl, rfl⟩
  · exact ⟨pd, s, hs, rfl, rfl⟩

/-- **The loop** does to each field what is done to it alone. -/
theorem serializeLoop_eq (hz : Compresses zlib compressTo compressBound) (mem : Bytes) {s : Scratch}
    (hs : s.Sound) (fs : List Field) :
    serializeLoop ratioTest outer compressTo compressBound mem s fs
      = serializeFields zlib ratioTest outer mem fs := by
  induction fs generalizing s with
  | nil => rfl
  | cons f fs ih =>
    rw [serializeLoop, serializeFields, serializeField, Outcome.bind_assoc]
    apply Outcome.bind_congr
    intro rpArg _
    rw [Outcome.bind_assoc]
    apply Outcome.bind_congr
    intro p _
    rw [Outcome.bind_assoc]
    apply Outcome.bind_congr
    intro pd _
    obtain ⟨b, s', hs', hfield, hinto⟩ := compressInto_spec ratioTest hz hs f.pec pd.1
    rw [hinto, hfield, Outcome.ok_bind, Outcome.ok_bind, ih hs']

/-! ### The command -/

variable (ratioTest outer) in
/-- The cells are what the query command would store for the same placeholders and arguments. -/
theorem serializeCells_eq (hz : Compresses zlib compressTo compressBound) (q : Query)
    (args : List MxArray) {ps : Pieces} {tail : Bytes} (h : Cut q.text.1 args.length ps tail) :
    serializeCells ratioTest outer compressTo compressBound q args
      = if ps.length = args.length then
          fieldsOf 0 ps args >>= fun _ => storedAll zlib ratioTest outer ps args
        else .raised .placeholderNumber := by
  rw [serializeCells]
  by_cases hargs : args.length = 0
  · obtain rfl := List.length_eq_zero_iff.mp hargs
    obtain rfl := List.length_eq_zero_iff.mp (Nat.le_zero.mp h.le)
    rfl
  rw [if_neg hargs]
  rcases scan_spec q.text.2 args.length with ⟨-, hopen⟩ | ⟨ps', tail', s, hscan, hend⟩
  · exact absurd hopen h.not_unclosed
  obtain ⟨rfl, rfl⟩ := h.unique hend.toCut
  rw [hscan, Outcome.ok_bind]
  dsimp only
  by_cases hnac : ps.length = args.length
  · have htypes := hend.readTypes_eq
    rw [if_neg (not_not.mpr hnac), if_pos hnac, ← Outcome.bind_assoc, htypes, Outcome.bind_assoc]
    apply Outcome.bind_congr
    intro fs hfs
    rw [Outcome.ok_bind, serializeLoop_eq hz _ Scratch.sound_start, h.serializeFields_eq hfs]
  · rw [if_pos hnac, if_neg hnac]

/-- `M` or `B`, with or without the preamble. -/
def Packed (body : Bytes) : Prop :=
  (if body.head? = some preNoCompression then body.tail else body).head? ∈
    [some phMatlab, some phBinary]

instance (body : Bytes) : Decidable (Packed body) := inferInstanceAs (Decidable (_ ∈ _))

/-- The cell for the argument `v` of a placeholder with the text `body`, when they stand alone; and the
query command has it, escaped, in the place of the placeholder. -/
def Alone (zlib : Zlib) (ratioTest : (plen len : Nat) → Bool)
    (outer : CStr → Serializer → MxArray → Result Serial) (escape : Bytes → Bytes)
    (compressTo : (capacity : Nat) → Bytes → Option Bytes) (compressBound : Nat → Nat)
    (mxGetString : MxArray → Option CStr) (body : Bytes) (v : MxArray) (c : Bytes) : Prop :=
  ∀ (q : Query) (before tail : Bytes), Cut q.text.1 1 [⟨before, body⟩] tail →
    serializeCells ratioTest outer compressTo compressBound q [v] = .ok [c] ∧
    ∀ m, newQuery zlib ratioTest outer escape mxGetString q [v] = .ok m →
      m.1 = before ++ escape c ++ tail

theorem alone_of_stored (hz : Compresses zlib compressTo compressBound) (hesc : Escapes escape)
    {body : Bytes} {v : MxArray} {c : Bytes} (h : stored zlib ratioTest outer body v = .ok c) :
    Alone zlib ratioTest outer escape compressTo compressBound mxGetString body v c := by
  intro q before tail hcut
  have hstored : storedAll zlib ratioTest outer [⟨before, body⟩] [v] = .ok [c] := by
    rw [storedAll, h]
    rfl
  obtain ⟨fs, hfs⟩ := fieldsOf_of_storedAll hstored 0
  refine ⟨?_, ?_⟩
  · have hcells := serializeCells_eq ratioTest outer hz q [v] hcut
    have hone : ([⟨before, body⟩] : Pieces).length = [v].length := rfl
    rw [hcells, if_pos hone, hfs, Outcome.ok_bind, hstored]
  · intro m hm
    have hnew : newQuery zlib ratioTest outer escape mxGetString q [v] = _ :=
      newQuery_of_cut hesc q [v] hcut
    rw [hm] at hnew
    obtain ⟨nb, -, hnew⟩ := Outcome.bind_eq_ok hnew.symm
    obtain ⟨nb', -, hnew⟩ := Outcome.bind_eq_ok hnew
    rw [hfs, Outcome.ok_bind, hstored, Outcome.ok_bind] at hnew
    cases hnew
    rw [hcut.textOf_splice hesc]
    simp [splice]

/-! ### Compression does not fail -/

theorem serializeParts_ne_raised {vals : List (Option MxArray)} {e : MexError}
    (h : ∀ v, some v ∈ vals → serializeChild v ≠ .raised e) : serializeParts vals ≠ .raised e := by
  induction vals with
  | nil => exact fun h => by cases h
  | cons o vals ih =>
    have hrest := ih fun v hv => h v (List.mem_cons_of_mem _ hv)
    cases o with
    | none =>
      rw [serializeParts, serializeFull_eq, Outcome.ok_bind]
      exact Outcome.bind_ne_raised hrest fun ps _ h => by cases h
    | some v =>
      rw [serializeParts]
      apply Outcome.bind_ne_raised (h v (by simp))
      intro p _
      exact Outcome.bind_ne_raised hrest fun ps _ h => by cases h

theorem putStruct_ne_raised (dims : List Nat) (fields : List CStr) (parts : List Serial)
    (rhead : Bool) : putStruct dims fields parts rhead ≠ .raised .compressionFailed := by
  unfold putStruct
  dsimp only
  split_ifs <;> exact fun h => by cases h

theorem putCell_ne_raised (dims : List Nat) (parts : List Serial) (rhead : Bool) :
    putCell dims parts rhead ≠ .raised .compressionFailed := by
  unfold putCell
  dsimp only
  split_ifs <;> exact fun h => by cases h

theorem serializeChild_ne_raised (v : MxArray) :
    serializeChild v ≠ .raised .compressionFailed := by
  induction v using MxArray.ind with
  | full a =>
    rw [serializeChild, serializeFull_eq]
    exact fun h => by cases h
  | sparse a =>
    rw [serializeChild, serializeSparse_eq]
    exact fun h => by cases h
  | struct dims fields vals ih =>
    rw [serializeChild]
    apply Outcome.bind_ne_raised (serializeParts_ne_raised ih)
    intro ps _
    split
    · exact fun h => by cases h
    · exact putStruct_ne_raised dims fields ps false
  | cell dims vals ih =>
    rw [serializeChild]
    apply Outcome.bind_ne_raised (serializeParts_ne_raised ih)
    intro ps _
    split
    · exact fun h => by cases h
    · exact putCell_ne_raised dims ps false
  | other c =>
    rw [serializeChild]
    exact fun h => by cases h

theorem serializeArray_ne_raised (dims : List Nat) (cls elementSize : Nat) (re : Bytes)
    (im : Option Bytes) (rhead : Bool) :
    serializeArray dims cls elementSize re im rhead ≠ .raised .compressionFailed := by
  rw [serializeArray]
  apply Outcome.bind_ne_raised (readBytes_ne_raised _ _ _ _)
  intro r _
  refine Outcome.bind_ne_raised ?_ fun i _ => ?_
  · cases im with
    | none => exact fun h => by cases h
    | some b => exact Outcome.bind_ne_raised (readBytes_ne_raised _ _ _ _) fun i _ h => by cases h
  · dsimp only
    split_ifs <;> exact fun h => by cases h

theorem Serializer.run_ne_raised {s : Serializer} (hs : s ≠ .file ∧ s ≠ .string)
    (outer : Serializer → MxArray → Result Serial) (v : MxArray) :
    s.run outer v ≠ .raised .compressionFailed := by
  have hundefined : (.undefined : Result Serial) ≠ .raised .compressionFailed := fun h => by cases h
  cases s with
  | file => exact absurd rfl hs.1
  | string => exact absurd rfl hs.2
  | array =>
    cases v with
    | full a => exact serializeArray_ne_raised _ _ _ _ _ _
    | sparse a => exact serializeArray_ne_raised _ _ _ _ _ _
    | _ => exact hundefined
  | struct =>
    cases v with
    | struct dims fields vals =>
      refine Outcome.bind_ne_raised (serializeParts_ne_raised fun v _ => serializeChild_ne_raised v)
        fun ps _ => ?_
      split
      · exact hundefined
      · exact putStruct_ne_raised dims fields ps true
    | _ => exact hundefined
  | cell =>
    cases v with
    | cell dims vals =>
      refine Outcome.bind_ne_raised (serializeParts_ne_raised fun v _ => serializeChild_ne_raised v)
        fun ps _ => ?_
      split
      · exact hundefined
      · exact putCell_ne_raised dims ps true
    | _ => exact hundefined
  | binary =>
    cases v with
    | full a => exact fun h => by cases h
    | _ => exact hundefined

theorem getSerialFct_ne_raised (body : Bytes) (v : MxArray) :
    getSerialFct body v ≠ .raised .compressionFailed := by
  unfold getSerialFct
  dsimp only
  split_ifs
  all_goals cases v <;> exact fun h => by cases h

/-- `M` and `B` are for the serializers of values. -/
theorem getSerialFct_packed {body : Bytes} (hbody : Packed body) {v : MxArray} {f : Serializer × Bool}
    (h : getSerialFct body v = .ok f) : f.1 ≠ .file ∧ f.1 ≠ .string := by
  have hpt : (if (body.head? == some preNoCompression) = true then body.tail else body)
      = if body.head? = some preNoCompression then body.tail else body := by
    simp only [beq_iff_eq]
  unfold getSerialFct at h
  dsimp only at h
  rw [hpt] at h
  rcases List.mem_cons.mp hbody with hm | hb
  · rw [if_pos hm] at h
    cases v <;> cases h <;> simp
  · have hb := List.mem_singleton.mp hb
    rw [hb, if_neg (by decide), if_pos rfl] at h
    split at h
    · cases h
    · cases h
      simp

theorem stored_ne_raised (hz : Compresses zlib compressTo compressBound) {body : Bytes}
    (hbody : Packed body) (v : MxArray) :
    stored zlib ratioTest outer body v ≠ .raised .compressionFailed := by
  apply Outcome.bind_ne_raised (getSerialFct_ne_raised body v)
  intro f hf
  apply Outcome.bind_ne_raised (Serializer.run_ne_raised (getSerialFct_packed hbody hf) _ v)
  intro p _
  apply Outcome.bind_ne_raised (readBytes_ne_raised _ _ _ _)
  intro pd _
  obtain ⟨b, -, -, hfield, -⟩ := compressInto_spec ratioTest hz Scratch.sound_start
    f.2 pd.1
  rw [hfield]
  exact fun h => by cases h

theorem storedAll_ne_raised (hz : Compresses zlib compressTo compressBound) {ps : Pieces}
    (hps : ∀ p ∈ ps, Packed p.body) (args : List MxArray) :
    storedAll zlib ratioTest outer ps args ≠ .raised .compressionFailed := by
  induction ps generalizing args with
  | nil => exact fun h => by cases h
  | cons p ps ih =>
    cases args with
    | nil => exact fun h => by cases h
    | cons v vs =>
      apply Outcome.bind_ne_raised (stored_ne_raised hz (hps p List.mem_cons_self) v)
      intro s _
      exact Outcome.bind_ne_raised (ih (fun x hx => hps x (List.mem_cons_of_mem p hx)) vs)
        fun ss _ h => by cases h

theorem fieldsOf_ne_raised (b : Nat) (ps : Pieces) (args : List MxArray) :
    fieldsOf b ps args ≠ .raised .compressionFailed := by
  induction ps generalizing b args with
  | nil => exact fun h => by cases h
  | cons p ps ih =>
    cases args with
    | nil => exact fun h => by cases h
    | cons v vs =>
      apply Outcome.bind_ne_raised (getSerialFct_ne_raised p.body v)
      intro f _
      exact Outcome.bind_ne_raised (ih _ vs) fun fs _ h => by cases h

/-! ### Many and each -/

/-- **Serializing many is serializing each.**  Compression never runs out of room; every cell is the
one its placeholder and argument have alone, and what the query command stores for them; and
the cells depend on nothing but the texts inside the placeholders and the arguments, so that
surplus placeholders change nothing. -/
theorem serialize_each (hz : Compresses zlib compressTo compressBound) (hesc : Escapes escape)
    {q : Query} {args : List MxArray} {ps : Pieces} {tail : Bytes}
    (hcut : Cut q.text.1 args.length ps tail) :
    ((∀ p ∈ ps, Packed p.body) →
      serializeCells ratioTest outer compressTo compressBound q args ≠ .raised .compressionFailed) ∧
    ∀ cs, serializeCells ratioTest outer compressTo compressBound q args = .ok cs →
      cs.length = args.length ∧
      List.Forall₂ (fun x c => Alone zlib ratioTest outer escape compressTo compressBound mxGetString
        x.1.body x.2 c) (ps.zip args) cs ∧
      ∀ (q' : Query) (ps' : Pieces) (tail' : Bytes), Cut q'.text.1 args.length ps' tail' →
        ps'.map Piece.body = ps.map Piece.body →
        serializeCells ratioTest outer compressTo compressBound q' args = .ok cs := by
  have hcells := serializeCells_eq ratioTest outer hz q args hcut
  refine ⟨fun hpacked => ?_, fun cs hcs => ?_⟩
  · rw [hcells]
    split
    · exact Outcome.bind_ne_raised (fieldsOf_ne_raised 0 ps args) fun _ _ =>
        storedAll_ne_raised hz hpacked args
    · exact fun h => by cases h
  rw [hcells] at hcs
  split at hcs
  · next hlen =>
    obtain ⟨fs, hfs, hstored⟩ := Outcome.bind_eq_ok hcs
    refine ⟨(storedAll_length hcut.le hstored).trans hlen, ?_, fun q' ps' tail' hcut' hbodies => ?_⟩
    · exact (storedAll_ok hcut.le hstored).imp fun _ _ h => alone_of_stored hz hesc h
    · have hcells' := serializeCells_eq ratioTest outer hz q' args hcut'
      have hlen' : ps'.length = args.length := by
        have hmap := congrArg List.length hbodies
        rw [List.length_map, List.length_map] at hmap
        exact hmap.trans hlen
      rw [hcells', if_pos hlen', fieldsOf_bind _ args hbodies 0 0, storedAll_congr args hbodies, hcs]
  · cases hcs

end

/-- `runZlib` with a limit on its room. -/
def runCompress (capacity : Nat) (src : Bytes) : Option Bytes :=
  (runZlib.compress src).filter fun c => c.length ≤ capacity

theorem runCompress_compresses : Compresses runZlib runCompress (· + 9) where
  result src cap hcap := by
    obtain ⟨c, hc, hle⟩ : ∃ c, runZlib.compress src = some c ∧ c.length ≤ src.length + 9 := by
      simp only [runZlib]
      split
      · exact ⟨_, rfl, by simp⟩
      · exact ⟨_, rfl, by simp; omega⟩
    have hroom : c.length ≤ cap := Nat.le_trans hle hcap
    exact ⟨c, by simp [runCompress, hc, hroom], hc, hroom⟩

/-- `serialize {M}, {uB}` -/
def serializeTwo : Query where
  text := ⟨[115, 101, 114, 105, 97, 108, 105, 122, 101, 32, 123, 77, 125, 44, 32, 123, 117, 66, 125],
    by decide⟩
  length_lt := by decide

theorem cut_serializeTwo : Cut serializeTwo.text.1 2
    [⟨[115, 101, 114, 105, 97, 108, 105, 122, 101, 32], [77]⟩, ⟨[44, 32], [117, 66]⟩] [] where
  query := rfl
  leftmost := by
    intro p hp
    rcases List.mem_cons.mp hp with rfl | hp
    · decide
    · rw [List.mem_singleton.mp hp]
      decide
  le := Nat.le_refl 2
  last h := absurd h (Nat.lt_irrefl 2)

/-- `serialize {B}, {B}, {uB}` -/
def serializeThree : Query where
  text := ⟨[115, 101, 114, 105, 97, 108, 105, 122, 101, 32, 123, 66, 125, 44, 32, 123, 66, 125, 44, 32,
    123, 117, 66, 125], by decide⟩
  length_lt := by decide

def threePieces : Pieces :=
  [⟨[115, 101, 114, 105, 97, 108, 105, 122, 101, 32], [66]⟩, ⟨[44, 32], [66]⟩, ⟨[44, 32], [117, 66]⟩]

theorem cut_serializeThree : Cut serializeThree.text.1 3 threePieces [] where
  query := rfl
  leftmost := by
    unfold Leftmost
    decide
  le := Nat.le_refl 3
  last h := absurd h (Nat.lt_irrefl 3)

/-- `zeros(1, n, 'uint8')` -/
def zeroBytes (n : Nat) : ByteVector where
  arr := ⟨MxClass.uint8.id, 1, [1, n], List.replicate n 0, none, by simp, fun _ h => by cases h⟩
  uint8 := rfl
  elementSize := rfl
  vector := rfl

def threeArgs : List MxArray :=
  [.full (zeroBytes 1001).arr, .full (zeroBytes 20000).arr, quoteArray]

theorem stored_zeroBytes {n : Nat} (h : minLenZlib < n)
    (outer : CStr → Serializer → MxArray → Result Serial) :
    stored runZlib savesTenth outer [66] (.full (zeroBytes n).arr)
      = .ok (frame n (0 :: leBytes 8 n)) :=
  (stored_binary runZlib savesTenth outer (zeroBytes n) []).1.trans (compressField_zeros h)

/-- Two runs of zeros, the second of which is longer than the buffer, and a byte that is left as it
is. -/
theorem serializeThree_each :
    Alone runZlib savesTenth (fun _ _ _ => .undefined) mysqlEscape runCompress (· + 9)
        (fun _ => none) [66] (.full (zeroBytes 1001).arr) (frame 1001 (0 :: leBytes 8 1001)) ∧
      Alone runZlib savesTenth (fun _ _ _ => .undefined) mysqlEscape runCompress (· + 9)
        (fun _ => none) [66] (.full (zeroBytes 20000).arr) (frame 20000 (0 :: leBytes 8 20000)) ∧
      Alone runZlib savesTenth (fun _ _ _ => .undefined) mysqlEscape runCompress (· + 9)
        (fun _ => none) [117, 66] quoteArray [39] := by
  have hstored : storedAll runZlib savesTenth (fun _ _ _ => .undefined) threePieces threeArgs
      = .ok [frame 1001 (0 :: leBytes 8 1001), frame 20000 (0 :: leBytes 8 20000), [39]] := by
    have hquote : stored runZlib savesTenth (fun _ _ _ => .undefined) [117, 66] quoteArray
        = .ok [39] := rfl
    have hlong : minLenZlib < 1001 ∧ minLenZlib < 20000 := by decide
    rw [threePieces, threeArgs, storedAll, stored_zeroBytes hlong.1, Outcome.ok_bind, storedAll,
      stored_zeroBytes hlong.2, Outcome.ok_bind, storedAll, hquote]
    rfl
  obtain ⟨fs, hfs⟩ := fieldsOf_of_storedAll hstored 0
  have hcells := serializeCells_eq savesTenth (fun _ _ _ => .undefined) runCompress_compresses
    serializeThree threeArgs cut_serializeThree
  have hlen : threePieces.length = threeArgs.length := rfl
  rw [if_pos hlen, hfs, Outcome.ok_bind, hstored] at hcells
  obtain ⟨-, hall, -⟩ := (serialize_each runCompress_compresses mysqlEscape_escapes
    cut_serializeThree).2 _ hcells
  cases hall with
  | cons h hrest =>
    cases hrest with
    | cons h' hrest =>
      cases hrest with
      | cons h'' hnil => exact ⟨h, h', h''⟩

end Mym
