import Mym.SerializeString

/-!
# The preamble

`{ut}` stores the argument as `{t}` does, without compression.  The serializer is the same
(`getSerialFct_preamble`), but the text inside the placeholder begins two bytes behind the opening
brace in both, so `{ut}` hands over `t` itself where `{t}` hands over what follows its letter.

Only `serializeString` reads that text, and only for a float scalar.  `preamble_iff` says when the bytes
are the same nevertheless.
-/

namespace Mym

/-! ### Before compression -/

/-- `serializeString` and `serializeFile` behind the function pointer.  What a file holds does not depend
on the text inside the placeholder; a byte of the buffer that nobody has written is `junk`. -/
def stringOrFile (fuel : Nat) (lone : Nat → Nat) (junk : UInt8) (file : MxArray → Result Serial)
    (rpArg : CStr) (s : Serializer) (v : MxArray) : Result Serial :=
  if s = .string then do
    let t ← serializeString fuel lone rpArg v
    .ok ⟨t.buffer.cells.map (·.getD junk), t.rnBytes⟩
  else file v

/-- `pd[i]` as it is before any compression. -/
def fieldBytes (outer : CStr → Serializer → MxArray → Result Serial) (mem : Bytes) (f : Field) :
    Result Bytes := do
  let rpArg ← readCStr mem f.pa
  let s ← f.pf.run (outer rpArg) f.arg
  let pd ← readBytes s.bytes 0 s.rnBytes
  .ok pd.1

/-- So it is in the query command. -/
theorem serializeField_eq (zlib : Zlib) (ratioTest : (plen len : Nat) → Bool)
    (outer : CStr → Serializer → MxArray → Result Serial) (mem : Bytes) (f : Field) :
    serializeField zlib ratioTest outer mem f
      = fieldBytes outer mem f >>= compressField zlib ratioTest f.pec := by
  rw [serializeField, fieldBytes, Outcome.bind_assoc]
  apply Outcome.bind_congr
  intro rpArg _
  rw [Outcome.bind_assoc]
  apply Outcome.bind_congr
  intro s _
  rw [Outcome.bind_assoc]
  rfl

/-- And in the serialize command. -/
theorem serializeLoop_cons (ratioTest : (plen len : Nat) → Bool)
    (outer : CStr → Serializer → MxArray → Result Serial)
    (compressTo : (capacity : Nat) → Bytes → Option Bytes) (compressBound : Nat → Nat) (mem : Bytes)
    (s : Scratch) (f : Field) (fs : List Field) :
    serializeLoop ratioTest outer compressTo compressBound mem s (f :: fs)
      = fieldBytes outer mem f >>= fun pd =>
        compressInto ratioTest compressTo compressBound f.pec pd s >>= fun r =>
        serializeLoop ratioTest outer compressTo compressBound mem r.2 fs >>= fun pds =>
        .ok (r.1 :: pds) := by
  rw [serializeLoop, fieldBytes, Outcome.bind_assoc]
  apply Outcome.bind_congr
  intro rpArg _
  rw [Outcome.bind_assoc]
  apply Outcome.bind_congr
  intro p _
  rw [Outcome.bind_assoc]
  rfl

/-- The field of a placeholder with the text `body`, which ends with a NUL by now. -/
structure FieldOf (mem body : Bytes) (v : MxArray) (f : Field) : Prop where
  text : At mem (f.po + 1) (body ++ [0])
  no_nul : (0 : UInt8) ∉ body
  pa : f.pa = f.po + 2
  fct : getSerialFct body v = .ok (f.pf, f.pec)
  arg : f.arg = v

/-- Such are the fields that both commands read. -/
theorem fieldsOf_spec {l r : Pieces} {t : Bytes} (h0 : ∀ p ∈ r, (0 : UInt8) ∉ p.body)
    {vs : List MxArray} {fs : List Field} (hfs : fieldsOf (span l) r vs = .ok fs) :
    List.Forall₂ (fun (x : Piece UInt8 × MxArray) f =>
      FieldOf (joined phOpen 0 l ++ (joined phOpen 0 r ++ t)) x.1.body x.2 f) (r.zip vs) fs := by
  induction r generalizing l vs fs with
  | nil =>
    cases hfs
    exact .nil
  | cons p r ih =>
    cases vs with
    | nil =>
      cases hfs
      exact .nil
    | cons v vs =>
      obtain ⟨f, hf, hfs⟩ := Outcome.bind_eq_ok hfs
      obtain ⟨fs', hfs', hfs⟩ := Outcome.bind_eq_ok hfs
      cases hfs
      have hsplit : joined phOpen 0 l ++ (joined phOpen 0 (p :: r) ++ t)
          = (joined phOpen 0 l ++ p.before ++ [phOpen]) ++ (p.body ++ [0])
            ++ (joined phOpen 0 r ++ t) := by
        rw [joined_cons, Piece.text]
        simp
      have hmem : joined phOpen 0 l ++ (joined phOpen 0 (p :: r) ++ t)
          = joined phOpen 0 (l ++ [p]) ++ (joined phOpen 0 r ++ t) := by
        rw [joined_snoc, joined_cons]
        simp
      refine .cons ⟨?_, h0 p List.mem_cons_self, rfl, hf, rfl⟩ ?_
      · have hpos : span l + p.before.length + 1
            = (joined phOpen 0 l ++ p.before ++ [phOpen]).length := by
          simp [Nat.add_assoc]
        show At _ (span l + p.before.length + 1) _
        rw [hsplit, hpos]
        exact at_middle _ _ _
      · rw [← span_snoc] at hfs'
        rw [hmem]
        exact ih (fun x hx => h0 x (List.mem_cons_of_mem p hx)) hfs'

/-- **The text inside a placeholder** begins behind the first character of what stands between its
braces. -/
theorem FieldOf.readCStr {mem : Bytes} {c : UInt8} {body : Bytes} {v : MxArray} {f : Field}
    (h : FieldOf mem (c :: body) v f) :
    ∃ s : CStr, s.1 = body ∧ Mym.readCStr (ε := MexError) mem f.pa = .ok s := by
  have hno : (0 : UInt8) ∉ body := fun hmem => h.no_nul (List.mem_cons_of_mem c hmem)
  refine ⟨⟨body, hno⟩, rfl, ?_⟩
  rw [h.pa]
  exact readCStr_of_at (at_cons.mp h.text).2

/-- The preamble switches compression off and leaves the choice of the serializer as it is. -/
theorem getSerialFct_preamble {t : Bytes} (ht : t.head? ≠ some preNoCompression) (v : MxArray) :
    getSerialFct (preNoCompression :: t) v = getSerialFct t v >>= fun f => .ok (f.1, false) := by
  have hno : (t.head? == some preNoCompression) = false := beq_eq_false_iff_ne.mpr ht
  have hyes : ((preNoCompression :: t).head? == some preNoCompression) = true := rfl
  have hpt : (if true = true then (preNoCompression :: t).tail else preNoCompression :: t) = t := rfl
  have hpt' : (if false = true then t.tail else t) = t := rfl
  unfold getSerialFct
  rw [hno, hyes]
  dsimp only
  rw [hpt, hpt']
  split
  · cases v with
    | full a => rfl
    | sparse a => rfl
    | struct dims fields vals => rfl
    | cell dims vals => rfl
    | other c => rfl
  split
  · split
    · rfl
    · rfl
  split
  · split
    · rfl
    · rfl
  split
  · rfl
  · rfl

/-! ### Scalars -/

/-- A real scalar of class double or single, with its value. -/
structure FloatScalar (v : MxArray) (x : Ieee) : Prop where
  rows : v.dims[0]? = some 1
  columns : v.dims[1]? = some 1
  nonempty : v.dims.prod ≠ 0
  real : v.isComplex = false
  float : v.classId = MxClass.double.id ∨ v.classId = MxClass.single.id
  value : scalarValue v = .ok (x, false)

theorem FloatScalar.unique {v : MxArray} {x y : Ieee} (h : FloatScalar v x) (h' : FloatScalar v y) :
    x = y := by
  have hvalue := h.value
  rw [h'.value] at hvalue
  cases hvalue
  rfl

theorem serializeString_float {v : MxArray} {x : Ieee} (h : FloatScalar v x) (fuel : Nat)
    (lone : Nat → Nat) (rpArg : CStr) :
    serializeString fuel lone rpArg v = printScalar rpArg x false := by
  have hrows : readEntry (ε := MexError) v.dims 0 = .ok 1 := by
    rw [readEntry, h.rows]
  have hcolumns : readEntry (ε := MexError) v.dims 1 = .ok 1 := by
    rw [readEntry, h.columns]
  have hchar : ¬v.isChar = true := by
    rw [MxArray.isChar_iff]
    rcases h.float with hc | hc
    · rw [hc]
      decide
    · rw [hc]
      decide
  have hnumber : (v.isNumeric || v.isLogical) = true := by
    rw [MxArray.isNumeric, MxArray.isLogical]
    rcases h.float with hc | hc
    · rw [hc]
      rfl
    · rw [hc]
      rfl
  rw [serializeString, hrows, Outcome.ok_bind, hcolumns, Outcome.ok_bind, if_neg h.nonempty,
    if_neg hchar, if_pos hnumber, if_neg (by decide), if_neg (by rw [h.real]; decide), h.value]
  rfl

/-- A value that is printed as an `int` is one already, unless its class is a float. -/
theorem scalarValue_cases {v : MxArray} {x : Ieee × Bool} (h : scalarValue v = .ok x) :
    (∃ n, x = (Ieee.ofInt n, true)) ∨
      x.2 = false ∧ (v.classId = MxClass.double.id ∨ v.classId = MxClass.single.id) := by
  have hint : ∀ {word : Result Nat} {g : Nat → Int},
      (word >>= fun n => .ok (Ieee.ofInt (g n), true)) = .ok x → ∃ n, x = (Ieee.ofInt n, true) := by
    intro word g hx
    obtain ⟨n, -, hx⟩ := Outcome.bind_eq_ok hx
    cases hx
    exact ⟨g n, rfl⟩
  rw [scalarValue] at h
  obtain ⟨mem, -, h⟩ := Outcome.bind_eq_ok h
  split at h
  · next hc =>
    obtain ⟨n, -, h⟩ := Outcome.bind_eq_ok h
    cases h
    exact Or.inr ⟨rfl, Or.inl hc⟩
  split at h
  · next hc =>
    obtain ⟨n, -, h⟩ := Outcome.bind_eq_ok h
    cases h
    exact Or.inr ⟨rfl, Or.inr hc⟩
  split at h
  · exact Or.inl (hint h)
  split at h
  · exact Or.inl (hint h)
  split at h
  · exact Or.inl (hint h)
  split at h
  · exact Or.inl (hint h)
  split at h
  · exact Or.inl (hint h)
  · cases h

theorem printScalar_ofInt (rpArg : CStr) (n : Int) : printScalar rpArg (Ieee.ofInt n) true
    = if -2 ^ 31 ≤ n ∧ n < 2 ^ 31 then sprintf (numeral n) else .undefined := by
  apply printScalar_int rfl
  split
  · rw [Ieee.trunc_floor (Ieee.value_ofInt n), Int.floor_intCast]
  · exact Ieee.trunc_ofInt n

/-- The text inside the placeholder is read for a float scalar only. -/
theorem serializeString_rpArg {v : MxArray} (h : ∀ x, ¬FloatScalar v x) (fuel : Nat)
    (lone : Nat → Nat) (rpArg rpArg' : CStr) :
    serializeString fuel lone rpArg v = serializeString fuel lone rpArg' v := by
  rw [serializeString, serializeString]
  apply Outcome.bind_congr
  intro m hm
  apply Outcome.bind_congr
  intro n hn
  dsimp only
  split
  · rfl
  next hprod =>
  split
  · rfl
  split
  · split
    · rfl
    next hone =>
    split
    · rfl
    next hreal =>
    apply Outcome.bind_congr
    intro x hx
    rcases scalarValue_cases hx with ⟨k, rfl⟩ | ⟨hfalse, hfloat⟩
    · rw [printScalar_ofInt, printScalar_ofInt]
    · have hrows : v.dims[0]? = some m := readEntry_eq_ok.mp hm
      have hcolumns : v.dims[1]? = some n := readEntry_eq_ok.mp hn
      have hm0 : m ≠ 0 := by
        rintro rfl
        exact hprod (List.prod_eq_zero_iff_exists_zero_nat.mpr
          ⟨0, List.mem_of_getElem? hrows, rfl⟩)
      have hn0 : n ≠ 0 := by
        rintro rfl
        exact hprod (List.prod_eq_zero_iff_exists_zero_nat.mpr
          ⟨0, List.mem_of_getElem? hcolumns, rfl⟩)
      have hm1 : m = 1 := by omega
      have hn1 : n = 1 := by omega
      subst hm1 hn1
      have hx : scalarValue v = .ok (x.1, false) := by
        rw [hx, ← hfalse]
      exact absurd ⟨hrows, hcolumns, hprod, Bool.eq_false_iff.mpr hreal, hfloat, hx⟩ (h x.1)
  · rfl

/-! ### The bytes -/

/-- The bytes that are stored of a text. -/
def storedText (junk : UInt8) (r : Result StringText) : Result Bytes := do
  let t ← r
  let pd ← readBytes (t.buffer.cells.map (·.getD junk)) 0 t.rnBytes
  .ok pd.1

theorem storedText_sprintf (junk : UInt8) (text : Bytes) :
    storedText junk (sprintf text) = if text.length < 512 then .ok text else .outside := by
  unfold sprintf
  split
  · have hbytes : (text.map some ++ List.replicate (512 - text.length) (some 0)).map
        (fun c : Option UInt8 => c.getD junk) = text ++ List.replicate (512 - text.length) 0 := by
      rw [List.map_append, List.map_map, List.map_replicate]
      exact congrArg (· ++ _) (List.map_id' text)
    rw [storedText, Outcome.ok_bind, hbytes, readBytes_start, Outcome.ok_bind]
  · rfl

/-- What `%.6f` writes of `x` is what the text inside a placeholder asks for: it does not ask for an
integer, and for 6 decimals, which is also the default, unless `x` is no number. -/
def SameFormat (rpArg : CStr) (x : Ieee) : Prop :=
  rpArg.1.head? ≠ some phInteger ∧ ∃ n, atoi rpArg = .ok n ∧ (precision n = 6 ∨ x.value = none)

theorem length_floatText_lt {v : MxArray} {x : Ieee} (h : FloatScalar v x) :
    (floatText 6 x).length < 512 := by
  have hbits : ∃ ew fw n, x = Ieee.ofBits ew fw n ∧ 0 < ew ∧ ew ≤ 11 := by
    have hvalue := h.value
    rw [scalarValue] at hvalue
    obtain ⟨mem, -, hvalue⟩ := Outcome.bind_eq_ok hvalue
    rcases h.float with hc | hc
    · rw [if_pos hc] at hvalue
      obtain ⟨n, -, hvalue⟩ := Outcome.bind_eq_ok hvalue
      cases hvalue
      exact ⟨11, 52, n, rfl, by decide, by decide⟩
    · rw [if_neg (by rw [hc]; decide), if_pos hc] at hvalue
      obtain ⟨n, -, hvalue⟩ := Outcome.bind_eq_ok hvalue
      cases hvalue
      exact ⟨8, 23, n, rfl, by decide, by decide⟩
  obtain ⟨ew, fw, n, hx, hpos, hew⟩ := hbits
  cases x with
  | nan neg =>
    show (signBytes neg ++ nanText).length < 512
    cases neg <;> decide
  | inf neg =>
    show (signBytes neg ++ infText).length < 512
    cases neg <;> decide
  | finite neg mag =>
    have hlen := length_fixed_le (p := 6) (by decide) (by decide) neg
      (Ieee.ofBits_range hpos hx.symm).1 (Ieee.ofBits_add_one_lt hpos hew hx.symm)
    show (fixed 6 neg mag).length < 512
    omega

/-- A text inside the placeholder that begins with a letter other than `i` asks for nothing. -/
theorem printScalar_letter {s : CStr} {t : Bytes} (hs : s.1 = phString :: t) (x : Ieee) :
    printScalar s x false = sprintf (floatText 6 x) := by
  have hhead : (s.1.head? == some phInteger) = false := by
    rw [hs]
    rfl
  have hparse : parseInt ((phString :: t).dropWhile isspace) = 0 := rfl
  have hatoi : atoi s = .ok 0 := by
    rw [atoi, hs, hparse]
    exact if_pos (by decide)
  rw [printScalar, hhead, Bool.or_false, if_neg (by decide), hatoi, if_neg (by decide)]
  rfl

/-- **One float**: with the letter in front of it the text inside the placeholder is without effect. -/
theorem printScalar_same_iff {s s' : CStr} {t : Bytes} (hs' : s'.1 = phString :: t) {v : MxArray}
    {x : Ieee} (hx : FloatScalar v x) (junk : UInt8) :
    storedText junk (printScalar s' x false) = storedText junk (printScalar s x false) ↔
      SameFormat s x := by
  have hlen := length_floatText_lt hx
  rw [printScalar_letter hs', storedText_sprintf, if_pos hlen]
  by_cases hi : s.1.head? = some phInteger
  · refine iff_of_false ?_ fun h => h.1 hi
    rw [printScalar, hi, Bool.false_or, if_pos (beq_iff_eq.mpr rfl), if_pos (beq_iff_eq.mpr rfl)]
    cases hcast : castInt x.floor with
    | ok n =>
      -- only a number can be cast
      obtain ⟨neg, mag, rfl⟩ : ∃ neg mag, x = .finite neg mag := by
        cases x with
        | nan neg => cases hcast
        | inf neg => cases hcast
        | finite neg mag => exact ⟨neg, mag, rfl⟩
      rw [Outcome.ok_bind, storedText_sprintf]
      split
      · intro h
        exact numeral_ne_fixed n 6 neg mag (Outcome.ok.inj h).symm
      · intro h
        cases h
    | _ =>
      intro h
      cases h
  have hi' : (s.1.head? == some phInteger) = false := beq_eq_false_iff_ne.mpr hi
  rw [printScalar, hi', Bool.or_false, if_neg (by decide), if_neg (by decide), SameFormat,
    and_iff_right hi]
  cases hatoi : atoi s with
  | ok n =>
    rw [Outcome.ok_bind, storedText_sprintf]
    refine ⟨?_, ?_⟩
    · intro h
      split at h
      · have htext := Outcome.ok.inj h
        refine ⟨n, rfl, ?_⟩
        cases x with
        | nan neg => exact Or.inr rfl
        | inf neg => exact Or.inr rfl
        | finite neg mag => exact Or.inl (fixed_injective (by decide) (precision_pos n) htext).symm
      · cases h
    · intro hw
      obtain ⟨n', hn', hsame⟩ := hw
      cases hn'
      have htext : floatText (precision n) x = floatText 6 x := by
        rcases hsame with hsix | hnone
        · rw [hsix]
        · cases x with
          | nan neg => rfl
          | inf neg => rfl
          | finite neg mag => cases hnone
      rw [htext, if_pos hlen]
  | _ =>
    refine iff_of_false ?_ ?_
    · intro h
      cases h
    · intro hw
      obtain ⟨n, hn, -⟩ := hw
      cases hn

theorem fieldBytes_eq {outer : CStr → Serializer → MxArray → Result Serial} {mem : Bytes} {f : Field}
    {s : CStr} (hs : readCStr (ε := MexError) mem f.pa = .ok s) : fieldBytes outer mem f
      = f.pf.run (outer s) f.arg >>= fun p => readBytes p.bytes 0 p.rnBytes >>= fun pd => .ok pd.1 := by
  rw [fieldBytes, hs, Outcome.ok_bind]

section

variable (fuel : Nat) (lone : Nat → Nat) (junk : UInt8) (file : MxArray → Result Serial)

theorem fieldBytes_string {mem : Bytes} {f : Field} (hf : f.pf = .string) {s : CStr}
    (hs : readCStr (ε := MexError) mem f.pa = .ok s) :
    fieldBytes (stringOrFile fuel lone junk file) mem f
      = storedText junk (serializeString fuel lone s f.arg) := by
  rw [fieldBytes_eq hs, hf]
  show stringOrFile fuel lone junk file s .string f.arg >>= _ = _
  rw [stringOrFile, if_pos rfl, storedText, Outcome.bind_assoc]
  rfl

/-- The other serializers do not read the text inside the placeholder. -/
theorem run_stringOrFile {p : Serializer} (hp : p ≠ .string) (s s' : CStr) (v : MxArray) :
    p.run (stringOrFile fuel lone junk file s) v = p.run (stringOrFile fuel lone junk file s') v := by
  cases p with
  | string => exact absurd rfl hp
  | file => rfl
  | binary => rfl
  | array => cases v <;> simp only [Serializer.run]
  | struct => cases v <;> simp only [Serializer.run]
  | cell => cases v <;> simp only [Serializer.run]

theorem head_of_string {t : Bytes} (ht : t.head? ≠ some preNoCompression) {v : MxArray} {b : Bool}
    (h : getSerialFct t v = .ok (.string, b)) : t.head? = some phString := by
  have hno : (t.head? == some preNoCompression) = false := beq_eq_false_iff_ne.mpr ht
  have hpt : (if false = true then t.tail else t) = t := rfl
  unfold getSerialFct at h
  rw [hno] at h
  dsimp only at h
  rw [hpt] at h
  split at h
  · cases v <;> cases h
  split at h
  · split at h
    · cases h
    · cases h
  split at h
  · split at h
    · cases h
    · cases h
  split at h
  · next hs => exact hs
  · cases h

/-- **What the preamble does.**  It leaves the serializer as it is, and never the text inside the
placeholder.  The bytes are the same unless they are those of a float scalar in another format. -/
theorem preamble_iff {mem t : Bytes} {v : MxArray} {f : Field} (h : FieldOf mem t v f)
    (ht : t.head? ≠ some preNoCompression) :
    getSerialFct (preNoCompression :: t) v = .ok (f.pf, false) ∧
    ∀ mem' f', FieldOf mem' (preNoCompression :: t) v f' →
      f'.pf = f.pf ∧
      readCStr (ε := MexError) mem' f'.pa ≠ readCStr mem f.pa ∧
      (fieldBytes (stringOrFile fuel lone junk file) mem' f'
          = fieldBytes (stringOrFile fuel lone junk file) mem f ↔
        (f.pf = .string → ∀ x, FloatScalar v x → SameFormat (textOf t.tail) x)) := by
  have hfct : getSerialFct (preNoCompression :: t) v = .ok (f.pf, false) := by
    rw [getSerialFct_preamble ht, h.fct]
    rfl
  refine ⟨hfct, fun mem' f' h' => ?_⟩
  have hpf : f'.pf = f.pf := by
    have hboth := h'.fct
    rw [hfct] at hboth
    exact (Prod.mk.inj (Outcome.ok.inj hboth)).1.symm
  obtain ⟨c, tail, rfl⟩ : ∃ c tail, t = c :: tail := by
    cases t with
    | nil =>
      have hnil := h.fct
      rw [getSerialFct_nil] at hnil
      cases hnil
    | cons c tail => exact ⟨c, tail, rfl⟩
  obtain ⟨s, hs, hread⟩ := h.readCStr
  obtain ⟨s', hs', hread'⟩ := h'.readCStr
  have htext : textOf (c :: tail).tail = s := by
    refine Subtype.ext ?_
    rw [hs]
    exact textOf_eq fun hmem => h.no_nul (List.mem_cons_of_mem c hmem)
  refine ⟨hpf, ?_, ?_⟩
  · rw [hread, hread']
    intro heq
    have hlen : s'.1.length = s.1.length := by
      rw [Outcome.ok.inj heq]
    rw [hs, hs', List.length_cons] at hlen
    omega
  · by_cases hstring : f.pf = .string
    · have hhead : c = phString := by
        have hfct := h.fct
        rw [hstring] at hfct
        exact Option.some_inj.mp (head_of_string ht hfct)
      subst hhead
      rw [fieldBytes_string fuel lone junk file (hpf.trans hstring) hread',
        fieldBytes_string fuel lone junk file hstring hread, h.arg, h'.arg, htext]
      by_cases hfloat : ∃ x, FloatScalar v x
      · obtain ⟨x, hx⟩ := hfloat
        rw [serializeString_float hx, serializeString_float hx, printScalar_same_iff hs' hx]
        refine ⟨fun hsame _ y hy => ?_, fun hall => hall hstring x hx⟩
        rwa [hy.unique hx]
      · have hnone : ∀ x, ¬FloatScalar v x := fun x hx => hfloat ⟨x, hx⟩
        rw [serializeString_rpArg hnone fuel lone s' s]
        exact iff_of_true rfl fun _ x hx => absurd hx (hnone x)
    · refine iff_of_true ?_ fun hs => absurd hs hstring
      rw [fieldBytes_eq hread, fieldBytes_eq hread', hpf, h.arg, h'.arg,
        run_stringOrFile fuel lone junk file hstring s' s]

end

/-- `{S3` and `{uS3`, each with its NUL. -/
def s3Memory : Bytes := [123, 83, 51, 0]
def us3Memory : Bytes := [123, 117, 83, 51, 0]

def s3Field : Field := ⟨0, 4, 2, .string, false, zeroId⟩
def us3Field : Field := ⟨0, 5, 2, .string, false, zeroId⟩

theorem fieldOf_s3 : FieldOf s3Memory [83, 51] zeroId s3Field where
  text := ⟨[], rfl⟩
  no_nul := by decide
  pa := rfl
  fct := rfl
  arg := rfl

theorem floatScalar_zero : FloatScalar zeroId (Ieee.ofBits 11 52 0) where
  rows := rfl
  columns := rfl
  nonempty := by decide
  real := rfl
  float := Or.inl rfl
  value := rfl

theorem not_sameFormat_three :
    ¬SameFormat (textOf [51]) (Ieee.ofBits 11 52 0) := by
  intro h
  obtain ⟨-, n, hn, hsame⟩ := h
  have hthree : atoi (textOf [51]) = .ok 3 := rfl
  rw [hthree] at hn
  cases hn
  rcases hsame with hsix | hnone
  · exact absurd hsix (by decide)
  · cases hnone

theorem preamble_zero :
    getSerialFct [117, 83, 51] zeroId = .ok (.string, false) ∧
    ∀ mem' f', FieldOf mem' [117, 83, 51] zeroId f' →
      f'.pf = .string ∧
      readCStr (ε := MexError) mem' f'.pa ≠ readCStr s3Memory 2 ∧
      (fieldBytes (stringOrFile 0 (fun _ => 0xFFFD) 0 fun _ => .undefined) mem' f'
          = fieldBytes (stringOrFile 0 (fun _ => 0xFFFD) 0 fun _ => .undefined) s3Memory s3Field ↔
        (Serializer.string = .string → ∀ x, FloatScalar zeroId x → SameFormat (textOf [51]) x)) :=
  preamble_iff 0 (fun _ => 0xFFFD) 0 (fun _ => .undefined) fieldOf_s3 (by decide)

/-- **`{uS3}` writes six decimals** where `{S3}` writes three: it hands over `S3` in place of `3`. -/
theorem preamble_decimals :
    readCStr (ε := MexError) us3Memory us3Field.pa = .ok (textOf [83, 51]) ∧
      readCStr (ε := MexError) s3Memory s3Field.pa = .ok (textOf [51]) ∧
      fieldBytes (stringOrFile 0 (fun _ => 0xFFFD) 0 fun _ => .undefined) us3Memory us3Field
        ≠ fieldBytes (stringOrFile 0 (fun _ => 0xFFFD) 0 fun _ => .undefined) s3Memory s3Field := by
  have hread : readCStr (ε := MexError) s3Memory s3Field.pa = .ok (textOf [51]) := rfl
  have hread' : readCStr (ε := MexError) us3Memory us3Field.pa = .ok (textOf [83, 51]) := rfl
  refine ⟨hread', hread, ?_⟩
  rw [fieldBytes_string _ _ _ _ rfl hread', fieldBytes_string _ _ _ _ rfl hread]
  show storedText 0 (serializeString 0 _ _ zeroId) ≠ storedText 0 (serializeString 0 _ _ zeroId)
  rw [serializeString_float floatScalar_zero, serializeString_float floatScalar_zero]
  intro h
  exact not_sameFormat_three ((printScalar_same_iff rfl floatScalar_zero 0).mp h)

end Mym
