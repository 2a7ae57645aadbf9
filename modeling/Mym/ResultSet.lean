import Mym.Deserialize
import Mym.Hex
import Mym.Lib.Decimal
import Mym.Lib.Ieee
import Mym.Lib.Logged

/-!
# What becomes of a result set

The query branch has a result set from `mysql_store_result`.  Without an output argument it is printed by
`fancyprint`.  With one, a container is created for every column, the containers are made the fields
of a struct under the names of the columns, and the rows are loaded into them.  Numeric containers
are written through `pr` and `i_pr`, which are indexed by column, and cells through the struct, which is
indexed by name.

`fetchOutput` is the branch, with a log that tells when the result set is freed.
-/

namespace Mym

/-! ### Columns -/

/-- `enum_field_types` -/
inductive FieldType where
  | decimal | tiny | short | long | float | double | null | timestamp | longlong | int24
  | date | time | datetime | year | newdate | varchar | bit | timestamp2 | datetime2 | time2
  | typedArray | invalid | bool | json | newdecimal | enum | set
  | tinyBlob | mediumBlob | longBlob | blob | varString | string | geometry
  deriving DecidableEq

def FieldType.number : FieldType → Nat
  | decimal => 0 | tiny => 1 | short => 2 | long => 3 | float => 4 | double => 5
  | null => 6 | timestamp => 7 | longlong => 8 | int24 => 9 | date => 10 | time => 11
  | datetime => 12 | year => 13 | newdate => 14 | varchar => 15 | bit => 16
  | timestamp2 => 17 | datetime2 => 18 | time2 => 19 | typedArray => 20
  | invalid => 243 | bool => 244 | json => 245 | newdecimal => 246 | enum => 247 | set => 248
  | tinyBlob => 249 | mediumBlob => 250 | longBlob => 251 | blob => 252
  | varString => 253 | string => 254 | geometry => 255

/-- `IS_NUM` -/
def isNum (t : FieldType) : Bool :=
  (t.number ≤ FieldType.int24.number && t != .timestamp) || t == .year || t == .newdecimal

/-- `can_convert` -/
def canConvert (t : FieldType) : Bool :=
  isNum t && t != .date && t != .time && t != .datetime && t != .timestamp

structure MysqlField where
  name : CStr
  type : FieldType
  flags : Nat
  charsetnr : Nat
  /-- the length of the longest value -/
  maxLength : Nat

def unsignedFlag : Nat := 32
def binaryFlag : Nat := 128

def MysqlField.hasFlag (f : MysqlField) (flag : Nat) : Bool := f.flags &&& flag != 0

/-- The character set of bytes. -/
def binaryCharset : Nat := 63

/-! ### Rows -/

/-- A value that is not NULL: its bytes, and what stands behind their NUL in the row. -/
structure FieldValue where
  bytes : Bytes
  behind : Bytes

/-- What `row[j]` points to. -/
def FieldValue.mem (v : FieldValue) : Bytes := v.bytes ++ 0 :: v.behind

abbrev Row := List (Option FieldValue)

/-- `p_lengths[j]` -/
def fetchedLength (v : Option FieldValue) : Nat := (v.map fun v => v.bytes.length).getD 0

/-- A result set in the memory of the client.  `fetch i` is what `mysql_fetch_row` returns for row `i`. -/
structure ResultSet where
  fields : List MysqlField
  numRows : Nat
  fetch : Nat → Option Row
  fetch_length : ∀ i row, fetch i = some row → row.length = fields.length

def fetchRow (res : ResultSet) (i : Nat) : Result Row :=
  match res.fetch i with
  | some row => .ok row
  | none => .raised .noRow

/-! ### Printing -/

/-- `...` -/
def contstr : Bytes := [46, 46, 46]
def nRowMax : Nat := 50
def nHead : Nat := 10
def nTail : Nat := 10

/-- A length that goes through an `int` into an `unsigned long`. -/
def throughInt (n : Nat) : Nat := (toInt32 (n % 2 ^ 32) % 2 ^ 64).toNat

/-- `len[j]` -/
def columnWidth (clip : Bool) (f : MysqlField) : Nat :=
  let len := throughInt f.name.1.length
  let len := if f.maxLength > len then f.maxLength else len
  if clip && contstr.length > len then contstr.length else len

/-- The format of a column: two blanks, `%-`, the width, `s` and a blank. -/
def formatText (width : Nat) : Bytes := [32, 32, 37, 45] ++ digits width ++ [115, 32]

/-- `sprintf` into the ten bytes of `fmt[j]` -/
def columnFormat (width : Nat) : Result Bytes :=
  writeBytes (List.replicate 10 0) 0 (formatText width ++ [0])

def columnFormats (clip : Bool) : List MysqlField → Result (List Bytes)
  | [] => .ok []
  | f :: fs => do
    let fmt ← columnFormat (columnWidth clip f)
    let fmts ← columnFormats clip fs
    .ok (fmt :: fmts)

/-- The next row is printed. -/
def printRow (res : ResultSet) (i : Nat) : Result Nat := do
  let _ ← fetchRow res i
  .ok (i + 1)

/-- `n` rows from row `i` on. -/
def printRows (res : ResultSet) (i n : Nat) : Result Nat := Outcome.iter (printRow res) n i

def fancyprint (res : ResultSet) : Result Unit := do
  let clip := decide (nRowMax < res.numRows)
  let _ ← columnFormats clip res.fields
  if clip then do
    let _ ← printRows res 0 nHead
    let _ ← printRows res (res.numRows - nTail) nTail
    .ok ()
  else do
    let _ ← printRows res 0 res.numRows
    .ok ()

/-! ### Containers -/

/-- The array that is created for a column. -/
inductive Container where
  | int64 (cls : MxClass) (data : List (BitVec 64))
  | double (data : List Ieee)
  | cell (data : List (Option Fetched))

/-- What is stored in one row of a container. -/
inductive Value where
  | word (w : BitVec 64)
  | double (x : Ieee)
  | cell (v : Fetched)

/-- A write to row `i`.  Nothing is known of one to a container of another kind. -/
def Container.put : Container → Nat → Value → Result Container
  | .int64 cls data, i, .word w => do
    let data ← writeEntry data i w
    .ok (.int64 cls data)
  | .double data, i, .double x => do
    let data ← writeEntry data i x
    .ok (.double data)
  | .cell data, i, .cell v => do
    let data ← writeEntry data i (some v)
    .ok (.cell data)
  | _, _, _ => .undefined

/-- `plhs[0]` and what belongs to it: the fields of the struct, the arrays that have been created, and
the pointers to their data. -/
structure Plhs where
  names : List CStr
  slots : List (Option Nat)
  arrays : List Container
  pr : List (Option Nat)
  iPr : List (Option Nat)

/-- What MATLAB and the C library are asked for.  The creating functions say whether they return an array
or NULL. -/
structure ResultApi where
  createStructMatrix : List CStr → Bool
  createNumericArray : (rows : Nat) → MxClass → Bool
  createDoubleMatrix : (rows : Nat) → Bool
  createCellMatrix : (rows : Nat) → Bool
  /-- the field that a name stands for, in a struct with these names -/
  fieldNumber : List CStr → CStr → Option Nat
  createString : CStr → MxArray
  /-- `sscanf` with `%lu` or `%ld` -/
  scanLong : (isUnsigned : Bool) → CStr → Option (BitVec 64)
  /-- `sscanf` with `%lf` -/
  scanDouble : CStr → Option Ieee
  memory : MxApi
  zlib : Zlib
  use32 : Bool

/-- What can be seen of a result set from outside. -/
inductive ResultCall where
  | storeResult
  | freeResult
  deriving DecidableEq, Repr

section Api

variable (api : ResultApi)

/-- `mxSetField` -/
def Plhs.setField (p : Plhs) (name : CStr) (value : Nat) : Plhs :=
  match api.fieldNumber p.names name with
  | some k => { p with slots := p.slots.set k (some value) }
  | none => p

/-- `mxGetField` -/
def Plhs.getField (p : Plhs) (name : CStr) : Option Nat :=
  (api.fieldNumber p.names name).bind fun k => (p.slots[k]?).join

/-! ### Values -/

/-- `field2num` -/
def field2num (s : Option FieldValue) (t : FieldType) : Result Ieee :=
  match s with
  | none => .ok (.nan false)
  | some v =>
    if isNum t then do
      let text ← readCStr v.mem 0
      .ok ((api.scanDouble text).getD (.nan false))
    else .raised .inconsistency

/-- `field2int`: the number that is stored, `none` when the text cannot be read. -/
def field2int (s : Option FieldValue) (f : MysqlField) : Result (Option (BitVec 64)) :=
  match s with
  | none => .raised .nullBigint
  | some v =>
    if isNum f.type then do
      let text ← readCStr v.mem 0
      .ok (api.scanLong (f.hasFlag unsignedFlag) text)
    else .raised .inconsistency

def fetchedBlob (s : Option FieldValue) : Result Fetched :=
  deserialize api.memory api.zlib api.use32 (s.map FieldValue.mem) (fetchedLength s)

/-- A 1-by-n `uint8` array. -/
def byteRow (bs : Bytes) : FullArray where
  classId := MxClass.uint8.id
  elementSize := MxClass.uint8.elementSize
  dims := [1, bs.length]
  re := bs
  im := none
  re_length := by simp [MxClass.elementSize]
  im_length := fun _ h => by cases h

/-- The bytes of a binary string, which a loop with an `int` counter copies. -/
def fetchedBytes (s : Option FieldValue) : Result Fetched :=
  let bs := (s.map FieldValue.bytes).getD []
  if 2 ^ 31 ≤ bs.length then .undefined else .ok (.value (.full (byteRow bs)))

/-- The string in a buffer of `hex2char`. -/
def cellsText (cells : Cells) : Result CStr :=
  if none ∈ cells.takeWhile (· != some 0) then .undefined
  else readCStr (cells.map (·.getD 0)) 0

/-- `mxCreateString(hex2char(row[j], p_lengths[j]))`.  The loop of `hex2char` needs no more rounds than there
are bytes. -/
def fetchedText (s : Option FieldValue) : Result Fetched := do
  let bs := (s.map FieldValue.bytes).getD []
  let c ← hex2char (bs.length + 1) bs bs.length
  let text ← cellsText c.cells
  .ok (.value (api.createString text))

/-! ### The struct -/

/-- A BIGINT column that stays integer. -/
def isBigint (toDouble : Bool) (f : MysqlField) : Bool := f.type == .longlong && !toDouble

/-- `0.0` -/
def Container.zero : Ieee := .finite false 0

/-- The array for a column, or the error for want of it. -/
def createContainer (toDouble : Bool) (nrow : Nat) (f : MysqlField) : Except MexError Container :=
  if isBigint toDouble f then
    let integerClass := if f.hasFlag unsignedFlag then MxClass.uint64 else MxClass.int64
    if api.createNumericArray nrow integerClass then .ok (.int64 integerClass (List.replicate nrow 0))
    else .error .createNumericArray
  else if canConvert f.type then
    if api.createDoubleMatrix nrow then .ok (.double (List.replicate nrow Container.zero))
    else .error .createNumericMatrix
  else if api.createCellMatrix nrow then .ok (.cell (List.replicate nrow none))
  else .error .createCellMatrix

/-- The pointers to a new array. -/
def placeContainer (toDouble : Bool) (p : Plhs) (j : Nat) (f : MysqlField) (c : Container) :
    Result Plhs := do
  let tmpPr := p.arrays.length
  let arrays := p.arrays ++ [c]
  let iPr ← if isBigint toDouble f then writeEntry p.iPr j (some tmpPr) else .ok p.iPr
  let pr ←
    if isBigint toDouble f then .ok p.pr
    else if canConvert f.type then writeEntry p.pr j (some tmpPr)
    else writeEntry p.pr j none
  .ok (Plhs.setField api ⟨p.names, p.slots, arrays, pr, iPr⟩ f.name tmpPr)

def createField (toDouble : Bool) (nrow : Nat) (p : Plhs) (j : Nat) (f : MysqlField) :
    Logged ResultCall MexError Plhs :=
  match createContainer api toDouble nrow f with
  | .error e => do
    Logged.emit .freeResult
    Logged.lift (.raised e)
  | .ok c => Logged.lift (placeContainer api toDouble p j f c)

/-- The fields from column `j` on. -/
def createFields (toDouble : Bool) (nrow : Nat) (p : Plhs) (j : Nat) :
    List MysqlField → Logged ResultCall MexError Plhs
  | [] => pure p
  | f :: fs => do
    let p ← createField api toDouble nrow p j f
    createFields toDouble nrow p (j + 1) fs

/-- The struct without its fields. -/
def Plhs.start (names : List CStr) : Plhs where
  names := names
  slots := List.replicate names.length none
  arrays := []
  pr := List.replicate names.length none
  iPr := List.replicate names.length none

/-! ### The rows -/

/-- A write through a pointer to an array. -/
def Plhs.store (p : Plhs) (pointer : Option Nat) (i : Nat) (v : Value) : Result Plhs :=
  match pointer with
  | none => .outside
  | some k => do
    let c ← readEntry p.arrays k
    let c ← c.put i v
    .ok { p with arrays := p.arrays.set k c }

def loadValue (toDouble : Bool) (p : Plhs) (i j : Nat) (f : MysqlField) (s : Option FieldValue) :
    Result Plhs :=
  if isBigint toDouble f then do
    let pointer ← readEntry p.iPr j
    let w ← field2int api s f
    match w with
    | some w => p.store pointer i (.word w)
    | none => .ok p
  else if canConvert f.type then do
    let x ← field2num api s f.type
    let pointer ← readEntry p.pr j
    p.store pointer i (.double x)
  else if f.type == .blob && f.charsetnr == binaryCharset then do
    let tmpPr := p.getField api f.name
    let v ← fetchedBlob api s
    p.store tmpPr i (.cell v)
  else if f.type == .string && f.hasFlag binaryFlag then do
    let tmpPr := p.getField api f.name
    let v ← fetchedBytes s
    p.store tmpPr i (.cell v)
  else do
    let tmpPr := p.getField api f.name
    let v ← fetchedText api s
    p.store tmpPr i (.cell v)

/-- The values of row `i` from column `j` on. -/
def loadRow (toDouble : Bool) (row : Row) (i : Nat) (p : Plhs) (j : Nat) :
    List MysqlField → Result Plhs
  | [] => .ok p
  | f :: fs => do
    let s ← readEntry row j
    let p ← loadValue api toDouble p i j f s
    loadRow toDouble row i p (j + 1) fs

/-- Row `s.1` is fetched and loaded. -/
def loadStep (toDouble : Bool) (res : ResultSet) (s : Nat × Plhs) : Result (Nat × Plhs) := do
  let row ← fetchRow res s.1
  let p ← loadRow api toDouble row s.1 s.2 0 res.fields
  .ok (s.1 + 1, p)

def loadRows (toDouble : Bool) (res : ResultSet) (p : Plhs) : Result Plhs := do
  let s ← Outcome.iter (loadStep api toDouble res) res.numRows (0, p)
  .ok s.2

/-! ### The branch -/

/-- Everything behind `mysql_store_result` for a result set: nothing is returned, or `plhs[0]`. -/
def fetchOutput (nlhs : Nat) (toDouble : Bool) (res : ResultSet) :
    Logged ResultCall MexError (Option Plhs) := do
  Logged.emit .storeResult
  if nlhs < 1 then do
    Logged.lift (fancyprint res)
    Logged.emit .freeResult
    pure none
  else if nlhs ≠ 1 then do
    Logged.emit .freeResult
    Logged.lift (.raised .oneOutput)
  else do
    let fieldnames := res.fields.map MysqlField.name
    if api.createStructMatrix fieldnames then do
      let p ← createFields api toDouble res.numRows (.start fieldnames) 0 res.fields
      let p ← Logged.lift (loadRows api toDouble res p)
      Logged.emit .freeResult
      pure (some p)
    else do
      Logged.emit .freeResult
      Logged.lift (.raised .createStructure)

end Api

end Mym
