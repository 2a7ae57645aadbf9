import Mym.ColumnCreation
import Mym.Fetching
import Mym.Preamble
import Mym.Quoting
import Mym.Storable

/-!
# What a column holds

An entry of a table in its own terms: a blob that reads as a MATLAB value or as bytes, an integer in a
BIGINT column or in a narrower one, or a text of characters up to 255.  `Keepable` says which arguments
are stored as an entry, through a placeholder of any of the four letters, and `Content.ReadsAs` says of
which bytes an entry is made.

`keeps_content` and `convert_content` are the two halves of the way through the database: from the
argument to the bytes, and from the bytes to what MATLAB gets.
-/

namespace Mym

inductive ColumnKind where
  | blob | bigint | number | text
  deriving DecidableEq

inductive Content where
  | blob (r : Fetched)
  | bigint (n : Int)
  | number (n : Int)
  | text (b : Bytes)

namespace Content

def kind : Content → ColumnKind
  | blob _ => .blob
  | bigint _ => .bigint
  | number _ => .number
  | text _ => .text

/-- The characters of a text, as `mxCreateString` is given them. -/
def string (b : Bytes) : CStr := textOf (utf8 (latin b))

/-- What MATLAB gets. -/
def value (api : ResultApi) (toDouble : Bool) : Content → Value
  | blob r => .cell r
  | bigint n => if toDouble then .double (Ieee.ofInt n) else .word (BitVec.ofInt 64 n)
  | number n => .double (Ieee.ofInt n)
  | text b => .cell (.value (api.createString (string b)))

end Content

/-- The type of a column of a result set. -/
def ColumnKind.Describes : ColumnKind → MysqlField → Prop
  | blob, f => f.type = .blob ∧ f.charsetnr = binaryCharset
  | bigint, f => f.type = .longlong ∧ f.hasFlag unsignedFlag = false
  | number, f => f.type = .tiny ∨ f.type = .short ∨ f.type = .int24 ∨ f.type = .long
  | text, f => f.type = .varString ∨ f.type = .string ∧ f.hasFlag binaryFlag = false

/-- The bytes that the server keeps as they are: in a column of integers, numerals. -/
def ColumnKind.Takes : ColumnKind → Bytes → Prop
  | blob, _ | text, _ => True
  | bigint, s | number, s => ∃ n : Int, s = numeral n

/-- The range of an `int`. -/
abbrev InInt (n : Int) : Prop := -2 ^ 31 ≤ n ∧ n < 2 ^ 31

/-- Characters up to 255, none of them a NUL. -/
structure LatinText (b : Bytes) : Prop where
  nonempty : b ≠ []
  noNul : (0 : UInt8) ∉ b
  length_lt : (utf8 (latin b)).length < 2 ^ 32

/-- The bytes read as the value, with the NUL of the client library behind them. -/
def Reads (api : ResultApi) (s : Bytes) (r : Fetched) : Prop :=
  ∀ behind : Bytes, behind.length < 2 ^ 62 →
    deserialize api.memory api.zlib api.use32 (some (s ++ 0 :: behind)) s.length = .ok r

/-- The bytes of an entry. -/
def Content.ReadsAs (api : ResultApi) (s : Bytes) : Content → Prop
  | blob r => Reads api s r
  | bigint n | number n => s = numeral n ∧ InInt n
  | text b => s = b ∧ LatinText b

/-- A scalar that is printed as the floor of its value. -/
structure PrintsFloor (body : Bytes) (x : RealScalar) (n : Int) : Prop where
  selects : Selects phString body
  printable : x.cls.printable = true
  /-- an integer class, or the text inside the placeholder begins with `i` -/
  toInt : x.cls.isFloat = false ∨ (textOf body.tail).1.head? = some phInteger
  floor : ∃ q, x.number.value = some q ∧ n = ⌊q⌋
  range : InInt n

/-- The argument is stored as the entry. -/
inductive Keepable (file : MxArray → Result Serial) : Bytes → MxArray → Content → Prop
  | blob {body v r} (h : Storable body v r) : Keepable file body v (.blob r)
  | file {body v p} (hbody : Selects phFile body) (hvector : v.isVector = true)
      (hchar : v.classId = MxClass.char.id) (hfile : file v = .ok (.of p)) (hplain : Unmarked p)
      (hsize : p.length < 2 ^ 32) : Keepable file body v (.blob (.dump p))
  | bigint {body n} (x : RealScalar) (h : PrintsFloor body x n) :
      Keepable file body (.full x.array) (.bigint n)
  | number {body n} (x : RealScalar) (h : PrintsFloor body x n) :
      Keepable file body (.full x.array) (.number n)
  | text {body b} (a : CharVector) (hbody : Selects phString body)
      (hunits : a.units = b.map UInt8.toNat) (h : LatinText b) : Keepable file body (.full a.array) (.text b)

/-- What is kept in a column of integers is a scalar. -/
theorem Keepable.printsFloor {file : MxArray → Result Serial} {body : Bytes} {v : MxArray} {c : Content}
    (h : Keepable file body v c) (hkind : c.kind = .bigint ∨ c.kind = .number) :
    ∃ x n, v = .full (RealScalar.array x) ∧ PrintsFloor body x n := by
  cases h with
  | bigint x h => exact ⟨x, _, rfl, h⟩
  | number x h => exact ⟨x, _, rfl, h⟩
  | blob h => exact absurd hkind (by simp [Content.kind])
  | file hbody hvector hchar hfile hplain hsize => exact absurd hkind (by simp [Content.kind])
  | text a hbody hunits h => exact absurd hkind (by simp [Content.kind])

/-! ### From the argument to the bytes -/

section

variable {zlib : Zlib} {ratioTest : (plen len : Nat) → Bool} {fuel : Nat} {lone : Nat → Nat} {junk : UInt8}
  {file : MxArray → Result Serial}

theorem getSerialFct_string {body : Bytes} (h : Selects phString body) (v : MxArray) :
    getSerialFct body v = .ok (.string, false) := by
  obtain ⟨rest, rfl | rfl⟩ := h
  · rfl
  · rfl

/-- What is stored for an S placeholder is never compressed. -/
theorem stored_string {body : Bytes} (h : Selects phString body) (v : MxArray) :
    stored zlib ratioTest (stringOrFile fuel lone junk file) body v
      = storedText junk (serializeString fuel lone (textOf body.tail) v) := by
  rw [stored, getSerialFct_string h, Outcome.ok_bind]
  show (stringOrFile fuel lone junk file (textOf body.tail) .string v >>= _) = _
  rw [stringOrFile, if_pos rfl, Outcome.bind_assoc, storedText]
  rfl

/-- What is cast to an `int` is the floor. -/
theorem RealScalar.trunc_written (x : RealScalar) {rpArg : CStr} {q : ℚ} (hq : x.number.value = some q)
    (hint : x.cls.isFloat = false ∨ rpArg.1.head? = some phInteger) :
    (if rpArg.1.head? == some phInteger then x.number.floor else x.number).trunc = some ⌊q⌋ := by
  split
  · exact Ieee.trunc_floor hq
  · next hi =>
    -- an integer class, so that there is nothing to round
    have hfloat : x.cls.isFloat = false := hint.resolve_right fun hhead => hi (beq_iff_eq.mpr hhead)
    obtain ⟨m, hm⟩ := x.number_of_not_float hfloat
    rw [hm, Ieee.value_ofInt] at hq
    cases hq
    rw [hm, Ieee.trunc_ofInt, Int.floor_intCast]

/-- **An integer is stored as its numeral.** -/
theorem stored_integer {body : Bytes} {x : RealScalar} {n : Int} (h : PrintsFloor body x n) :
    stored zlib ratioTest (stringOrFile fuel lone junk file) body (.full x.array) = .ok (numeral n) := by
  obtain ⟨q, hq, rfl⟩ := h.floor
  have hconv : (!x.cls.isFloat || (textOf body.tail).1.head? == some phInteger) = true := by
    rcases h.toInt with hfloat | hi
    · rw [hfloat]
      rfl
    · rw [hi, Bool.or_eq_true]
      exact Or.inr rfl
  have hshort : (numeral ⌊q⌋).length < 512 := by
    obtain ⟨hlow, hhigh⟩ := h.range
    have hlen := @length_numeral_le ⌊q⌋ 10 (by decide) (by omega)
    omega
  rw [stored_string h.selects, x.serializeString_scalar, if_pos h.printable,
    printScalar_int hconv (x.trunc_written hq h.toInt), if_pos h.range, storedText_sprintf, if_pos hshort]

theorem stored_file {body : Bytes} (hbody : Selects phFile body) {v : MxArray} (hvector : v.isVector = true)
    (hchar : v.classId = MxClass.char.id) {p : Bytes} (hfile : file v = .ok (.of p)) :
    ∃ pec, stored zlib ratioTest (stringOrFile fuel lone junk file) body v
      = compressField zlib ratioTest pec p := by
  obtain ⟨pec, hpec⟩ : ∃ pec, getSerialFct body v = .ok (.file, pec) := by
    have hok : (!v.isVector || v.classId != MxClass.char.id) = false := by
      rw [hvector, hchar]
      rfl
    obtain ⟨rest, rfl | rfl⟩ := hbody
    · exact ⟨true, if_neg (by rw [hok]; exact Bool.false_ne_true)⟩
    · exact ⟨false, if_neg (by rw [hok]; exact Bool.false_ne_true)⟩
  refine ⟨pec, ?_⟩
  rw [stored, hpec, Outcome.ok_bind]
  show (file v >>= _) = _
  rw [hfile, Outcome.ok_bind, Serial.of, readBytes_self rfl]
  rfl

theorem decodeUnits_bytes (b : Bytes) : decodeUnits lone (b.map UInt8.toNat) = b.map UInt8.toNat := by
  have hunit : ∀ c : UInt8, unitPoint lone c.toNat = c.toNat := by
    intro c
    have hc := c.toNat_lt
    rw [unitPoint, if_neg (by omega)]
  induction b with
  | nil => rfl
  | cons c b ih =>
    cases b with
    | nil => exact congrArg (fun n => [n]) (hunit c)
    | cons d b =>
      have hc := c.toNat_lt
      rw [List.map_cons, List.map_cons, decodeUnits_single (by omega), hunit, ← List.map_cons, ih]

theorem points_of_bytes (b : Bytes) :
    (∀ v ∈ b.map UInt8.toNat, IsPoint v) ∧ ∀ v ∈ b.map UInt8.toNat, ¬IsSurrogate v := by
  have hbyte : ∀ v ∈ b.map UInt8.toNat, v < 256 := by
    intro v hv
    obtain ⟨c, -, rfl⟩ := List.mem_map.mp hv
    exact c.toNat_lt
  refine ⟨fun v hv => ?_, fun v hv => ?_⟩
  · have hv' := hbyte v hv
    omega
  · have hv' := hbyte v hv
    omega

theorem ne_zero_of_units {b : Bytes} (h : (0 : UInt8) ∉ b) {v : Nat} (hv : v ∈ b.map UInt8.toNat) :
    v ≠ 0 := by
  obtain ⟨c, hc, rfl⟩ := List.mem_map.mp hv
  intro hzero
  have hc0 : c = 0 := UInt8.toNat_inj.mp hzero
  exact h (hc0 ▸ hc)

theorem text_of_units {a : CharVector} {b : Bytes} (hunits : a.units = b.map UInt8.toNat)
    (h : (0 : UInt8) ∉ b) : a.text lone = utf8 (latin b) := by
  have hall : (b.map UInt8.toNat).takeWhile (· ≠ 0) = b.map UInt8.toNat :=
    List.takeWhile_eq_self_iff.mpr fun n hn => decide_eq_true (ne_zero_of_units h hn)
  rw [CharVector.text, hunits, decodeUnits_bytes, hall, utf8_latin]

/-- **A text of characters up to 255 is stored as its characters**, if it is stored at all. -/
theorem stored_latin (hlone : ∀ u, 0 < lone u ∧ lone u ≤ 0xFFFF) {body : Bytes}
    (hbody : Selects phString body) {a : CharVector} {b : Bytes} (hunits : a.units = b.map UInt8.toNat)
    (h : LatinText b) {s : Bytes}
    (hs : stored zlib ratioTest (stringOrFile fuel lone junk file) body (.full a.array) = .ok s) :
    s = b := by
  have hlen : a.units.length = b.length := by rw [hunits, List.length_map]
  have hbytes : (b.map UInt8.toNat).map UInt8.ofNat = b := by
    rw [List.map_map]
    exact List.map_id'' (fun c => UInt8.ofNat_toNat) b
  obtain ⟨hpoint, hsurrogate⟩ := points_of_bytes b
  have hcells := char2hex_eq hpoint hsurrogate (utf8_latin b ▸ h.length_lt) 0
  rw [← utf8_latin, List.length_map, hbytes] at hcells
  rw [stored_string hbody, serializeString_char hlone, text_of_units hunits h.noNul, hlen, storedText,
    Outcome.bind_assoc] at hs
  obtain ⟨buffer, hbuffer, hs⟩ := Outcome.bind_eq_ok hs
  cases char2hex_unique hbuffer hcells (by simp) (by simp)
  have hmem : (filledCells (b ++ [0]) 0).map (fun c : Option UInt8 => c.getD junk) = b ++ [0] := by
    rw [filledCells, List.replicate_zero, List.append_nil, List.map_map]
    exact List.map_id' _
  rw [Outcome.ok_bind] at hs
  dsimp only at hs
  rw [hmem, readBytes_start, Outcome.ok_bind] at hs
  exact (Outcome.ok.inj hs).symm

end

section

variable {api : ResultApi} {ratioTest : (plen len : Nat) → Bool}

/-- What has been stored for an argument reads as it should. -/
theorem reads_of_stored (hmemory : api.memory.Creates) (hz : api.zlib.Inverts) (h32 : api.use32 = false)
    {outer : CStr → Serializer → MxArray → Result Serial} {body : Bytes} {v : MxArray} {r : Fetched}
    (h : Storable body v r) {s : Bytes} (hs : stored api.zlib ratioTest outer body v = .ok s) :
    Reads api s r := by
  intro behind hbehind
  rw [h32]
  refine h.reads hmemory hz hs ?_ fun _ _ => Or.inl ⟨behind, rfl⟩
  rw [List.length_cons]
  omega

/-- **What is stored for an entry is that entry.** -/
theorem keeps_content (hmemory : api.memory.Creates) (hz : api.zlib.Inverts) (h32 : api.use32 = false)
    {fuel : Nat} {lone : Nat → Nat} (hlone : ∀ u, 0 < lone u ∧ lone u ≤ 0xFFFF) {junk : UInt8}
    {file : MxArray → Result Serial} {body : Bytes} {v : MxArray} {c : Content}
    (h : Keepable file body v c) {s : Bytes}
    (hs : stored api.zlib ratioTest (stringOrFile fuel lone junk file) body v = .ok s) :
    c.ReadsAs api s := by
  cases h with
  | blob h => exact reads_of_stored hmemory hz h32 h hs
  | file hbody hvector hchar hfile hplain hsize =>
    obtain ⟨pec, hpec⟩ := stored_file hbody hvector hchar hfile
    intro behind hbehind
    rw [h32]
    exact deserialize_byteField hmemory hz hplain hsize (hpec.symm.trans hs)
      (Or.inl ⟨behind, rfl⟩)
  | bigint x h => exact ⟨(Outcome.ok.inj ((stored_integer h).symm.trans hs)).symm, h.range⟩
  | number x h => exact ⟨(Outcome.ok.inj ((stored_integer h).symm.trans hs)).symm, h.range⟩
  | text a hbody hunits h => exact ⟨stored_latin hlone hbody hunits h hs, h⟩

theorem Content.ReadsAs.takes {c : Content} {s : Bytes} (h : c.ReadsAs api s) : c.kind.Takes s := by
  cases c with
  | blob r => exact trivial
  | bigint n => exact ⟨n, h.1⟩
  | number n => exact ⟨n, h.1⟩
  | text b => exact trivial

theorem mem_numeral {n : Int} {b : UInt8} (h : b ∈ numeral n) : b = minusSign ∨ isDigit b = true := by
  rcases List.mem_append.mp h with h | h
  · unfold signBytes at h
    split at h
    · exact Or.inl (List.mem_singleton.mp h)
    · cases h
  · exact Or.inr (isDigit_of_mem_digits h)

theorem code_digit {b : UInt8} (h : isDigit b = true) : mysqlCode b = none :=
  byte_all (P := fun b => isDigit b = true → mysqlCode b = none) (by decide +kernel) b h

theorem Passage.step_digit (w : Passage) {b : UInt8} (h : isDigit b = true) : w.step b = w.skip := by
  have hall : ∀ n < 256, isDigit (UInt8.ofNat n) = true → w.step (UInt8.ofNat n) = w.skip := by
    cases w <;> decide +kernel
  exact byte_all (P := fun b => isDigit b = true → w.step b = w.skip) hall b h

theorem Passage.skip_skip (w : Passage) : w.skip.skip = w.skip := by
  cases w <;> rfl

theorem Passage.digits_skip (w : Passage) {bs : Bytes} (hne : bs ≠ [])
    (h : ∀ b ∈ bs, isDigit b = true) : bs.foldl Passage.step w = w.skip := by
  induction bs generalizing w with
  | nil => exact absurd rfl hne
  | cons b bs ih =>
    rw [List.foldl_cons, w.step_digit (h b List.mem_cons_self)]
    by_cases hbs : bs = []
    · rw [hbs, List.foldl_nil]
    · rw [ih _ hbs fun c hc => h c (List.mem_cons_of_mem b hc), w.skip_skip]

/-- A numeral can stand outside of a literal. -/
theorem bare_numeral (n : Int) : mysqlTable.Bare (numeral n) where
  ne_nil := List.append_ne_nil_of_right_ne_nil _ (digits_ne_nil _)
  code b hb := by
    rcases mem_numeral hb with rfl | hdigit
    · rfl
    · exact code_digit hdigit
  skips w := by
    have hdigits : ∀ w : Passage, (digits n.natAbs).foldl Passage.step w = w.skip := fun w =>
      w.digits_skip (digits_ne_nil _) fun b hb => isDigit_of_mem_digits hb
    show (signBytes _ ++ digits n.natAbs).foldl Passage.step w = w.skip
    rw [List.foldl_append, hdigits, signBytes]
    split
    · -- behind a sign the passage goes on as it does in front of it
      cases w <;> rfl
    · rfl

end

/-! ### From the bytes to MATLAB -/

/-- `sscanf` reads the numerals of integers. -/
structure ResultApi.Scans (api : ResultApi) : Prop where
  long : ∀ (n : Int) (s : CStr), InInt n → s.1 = numeral n → api.scanLong false s = some (BitVec.ofInt 64 n)
  double : ∀ (n : Int) (s : CStr), InInt n → s.1 = numeral n → api.scanDouble s = some (Ieee.ofInt n)

section

variable {api : ResultApi} {toDouble : Bool} {f : MysqlField}

theorem zero_not_mem_numeral (n : Int) : (0 : UInt8) ∉ numeral n := by
  intro h
  rcases mem_numeral h with h | h
  · exact absurd h (by decide)
  · exact absurd h (by decide)

theorem readCStr_mem {s behind : Bytes} (h : (0 : UInt8) ∉ s) :
    readCStr (ε := MexError) (FieldValue.mem ⟨s, behind⟩) 0 = .ok ⟨s, h⟩ :=
  readCStr_of_at ⟨behind, by rw [List.drop_zero, FieldValue.mem, List.append_assoc]; rfl⟩

theorem convert_blob (htype : f.type = .blob) (hcharset : f.charsetnr = binaryCharset)
    {s behind : Bytes} {r : Fetched} (h : Reads api s r) (hbehind : behind.length < 2 ^ 62) :
    convert api toDouble f (some ⟨s, behind⟩) = .ok (.cell r) := by
  have hbig : isBigint toDouble f = false := by rw [isBigint, htype]; rfl
  have hnum : canConvert f.type = false := by rw [htype]; rfl
  have hblob : (f.type == .blob && f.charsetnr == binaryCharset) = true := by
    rw [htype, hcharset]
    rfl
  have hread : fetchedBlob api (some ⟨s, behind⟩) = .ok r := h behind hbehind
  rw [convert, hbig, hnum, hblob, if_neg Bool.false_ne_true, if_neg Bool.false_ne_true, if_pos rfl,
    hread]
  rfl

/-- The bytes of a buffer that has been filled, up to the NUL. -/
theorem cellsText_filled {t : Bytes} (h : (0 : UInt8) ∉ t) (room : Nat) :
    cellsText (filledCells (t ++ [0]) room) = .ok ⟨t, h⟩ := by
  have hcells : filledCells (t ++ [0]) room = t.map some ++ some 0 :: List.replicate room none := by
    rw [filledCells, List.map_append, List.append_assoc]
    rfl
  have htake : (filledCells (t ++ [0]) room).takeWhile (· != some 0) = t.map some := by
    rw [hcells, List.takeWhile_append_of_pos]
    · simp
    · intro c hc
      obtain ⟨b, hb, rfl⟩ := List.mem_map.mp hc
      rw [bne_iff_ne]
      rintro ⟨⟩
      exact h hb
  have hnone : none ∉ (filledCells (t ++ [0]) room).takeWhile (· != some 0) := by
    rw [htake]
    simp
  rw [cellsText, if_neg hnone]
  apply readCStr_of_at
  refine ⟨List.replicate room 0, ?_⟩
  rw [hcells, List.drop_zero, List.map_append, List.map_map, List.map_cons, List.map_replicate,
    List.append_assoc]
  exact congrArg (· ++ _) (List.map_id' t).symm

theorem zero_not_mem_utf8 {b : Bytes} (h : (0 : UInt8) ∉ b) : (0 : UInt8) ∉ utf8 (latin b) := by
  rw [utf8_latin, encodePoints]
  intro hmem
  obtain ⟨v, hv, hzero⟩ := List.mem_flatMap.mp hmem
  have hno := encodePoint_no_nul ((points_of_bytes b).1 v hv) (ne_zero_of_units h hv) 0 hzero
  exact of_decide_eq_true hno rfl

theorem fetchedText_latin {b : Bytes} (h : LatinText b) (behind : Bytes) :
    fetchedText api (some ⟨b, behind⟩) = .ok (.value (api.createString (Content.string b))) := by
  have hno := zero_not_mem_utf8 h.noNul
  have hstring : Content.string b = ⟨utf8 (latin b), hno⟩ := Subtype.ext (textOf_eq hno)
  rw [fetchedText]
  show (hex2char (b.length + 1) b b.length >>= _) = _
  rw [hex2char_eq h.nonempty h.length_lt, Outcome.ok_bind, cellsText_filled hno, Outcome.ok_bind, hstring]

section Numbers

variable (hscan : api.Scans) {n : Int} (hn : InInt n) (behind : Bytes)

include hscan hn

theorem convert_bigint (htype : f.type = .longlong) (hsigned : f.hasFlag unsignedFlag = false) :
    convert api false f (some ⟨numeral n, behind⟩) = .ok (.word (BitVec.ofInt 64 n)) := by
  have hbig : isBigint false f = true := by rw [isBigint, htype]; rfl
  have hnum : isNum f.type = true := by rw [htype]; rfl
  have hword : field2int api (some ⟨numeral n, behind⟩) f = .ok (some (BitVec.ofInt 64 n)) := by
    rw [field2int, if_pos hnum, readCStr_mem (zero_not_mem_numeral n), Outcome.ok_bind, hsigned,
      hscan.long n _ hn rfl]
  rw [convert, if_pos hbig, hword, Outcome.ok_bind, Option.getD_some]

theorem convert_double (hbig : isBigint toDouble f = false) (hconv : canConvert f.type = true) :
    convert api toDouble f (some ⟨numeral n, behind⟩) = .ok (.double (Ieee.ofInt n)) := by
  have hnum : isNum f.type = true := by
    simp only [canConvert, Bool.and_eq_true] at hconv
    exact hconv.1.1.1.1
  have hdouble : field2num api (some ⟨numeral n, behind⟩) f.type = .ok (Ieee.ofInt n) := by
    rw [field2num, if_pos hnum, readCStr_mem (zero_not_mem_numeral n), Outcome.ok_bind, hscan.double n _ hn rfl,
      Option.getD_some]
  rw [convert, hbig, if_neg Bool.false_ne_true, if_pos hconv, hdouble, Outcome.ok_bind]

end Numbers

/-- A text goes through `hex2char`. -/
theorem convert_text (hf : ColumnKind.text.Describes f) {b : Bytes} (h : LatinText b) (behind : Bytes) :
    convert api toDouble f (some ⟨b, behind⟩)
      = .ok (.cell (.value (api.createString (Content.string b)))) := by
  have htype : (isBigint toDouble f = false ∧ canConvert f.type = false) ∧
      (f.type == .blob) = false ∧ (f.type == .string && f.hasFlag binaryFlag) = false := by
    rcases hf with h | ⟨h, hflag⟩
    · rw [isBigint, h]
      exact ⟨⟨rfl, rfl⟩, rfl, rfl⟩
    · rw [isBigint, h, hflag]
      exact ⟨⟨rfl, rfl⟩, rfl, rfl⟩
  obtain ⟨⟨hbig, hnum⟩, hblob, hbytes⟩ := htype
  rw [convert, hbig, hnum, hblob, hbytes, Bool.false_and, if_neg Bool.false_ne_true,
    if_neg Bool.false_ne_true, if_neg Bool.false_ne_true, if_neg Bool.false_ne_true,
    fetchedText_latin h, Outcome.ok_bind]

/-- **An entry comes to MATLAB as its value.** -/
theorem convert_content (hscan : api.Scans) {c : Content} (hf : c.kind.Describes f) {s behind : Bytes}
    (h : c.ReadsAs api s) (hbehind : behind.length < 2 ^ 62) :
    convert api toDouble f (some ⟨s, behind⟩) = .ok (c.value api toDouble) := by
  cases c with
  | blob r => exact convert_blob hf.1 hf.2 h hbehind
  | bigint n =>
    obtain ⟨rfl, hn⟩ := h
    cases toDouble with
    | false => exact convert_bigint hscan hn behind hf.1 hf.2
    | true =>
      refine convert_double hscan hn behind ?_ ?_
      · rw [isBigint, hf.1]
        rfl
      · rw [hf.1]
        rfl
  | number n =>
    obtain ⟨rfl, hn⟩ := h
    refine convert_double hscan hn behind ?_ ?_
    · rcases hf with h | h | h | h
      all_goals
        rw [isBigint, h]
        rfl
    · rcases hf with h | h | h | h
      all_goals
        rw [h]
        rfl
  | text b =>
    obtain ⟨rfl, h⟩ := h
    exact convert_text hf h behind

end

theorem scanWhole_numeral {n : Int} {s : CStr} (hs : s.1 = numeral n) : scanWhole s = some n := by
  have hhead : (s.1.head?.any fun b => isDigit b || b == minusSign) = true := by
    rw [hs]
    cases hn : numeral n with
    | nil => exact absurd hn (bare_numeral n).ne_nil
    | cons b bs =>
      rcases mem_numeral (hn ▸ List.mem_cons_self) with rfl | hdigit
      · rfl
      · rw [List.head?_cons, Option.any_some, hdigit, Bool.true_or]
  rw [scanWhole, if_pos hhead, hs, parseInt_numeral]

end Mym
