import Mym.Value

/-!
# The serializers

`serializeArray`, `serializeSparse`, `serializeStruct` and `serializeCell` of
`mym.cpp`, and `getSerialFct`, which picks one for a placeholder.  Each returns
the bytes it wrote beside the `rnBytes` it reports; a container computes
`rnBytes` from its parts before it writes and raises an error when the two
disagree.  The counters of the element loops are `int`s, so a container with
too many elements is undefined behaviour.

The head `mYm` and its NUL are written only at the root (`rhead`).
-/

namespace Mym

/-- The errors the code raises with `mexErrMsgTxt` and `mexErrMsgIdAndTxt`. -/
inductive MexError where
  | unsupportedType
  | notEnoughAllocated
  | onlyArrayStructOrCell
  | onlyUint8Vector
  | onlyCharVector
  | onlyCharArray
  | unknownPlaceholder
  | unknownType
  | dj0
  | compressionFailed
  | invalidId
  | missingCommand
  | argsNotStrings
  | scanOnlyOpen
  | noFreeId
  | notConnected
  | cannotInit
  | tlsStruct
  | noDatabase
  | cannotCopyString
  | placeholdersNotClosed
  | placeholderNumber
  | bareBrace
  | deserializeMismatch
  | versionInputs
  | versionOutputs
  | invalidUtf8
  | onlyScalars
  | complexScalar
  | unsupportedScalar
  | onlyStringOrScalar
  | couldNotOpen
  | noRow
  | nullBigint
  | inconsistency
  | oneOutput
  | createStructure
  | createNumericArray
  | createNumericMatrix
  | createCellMatrix
  /-- the error the MySQL client reports -/
  | client
  /-- an error raised inside the MATLAB API -/
  | matlab
  deriving DecidableEq, Repr

def MexError.text : MexError → String
  | unsupportedType => "unsupported type"
  | notEnoughAllocated => "Oops, I haven't allocated enough memory, BEWARE"
  | onlyArrayStructOrCell => "Matlab placeholder only support array, structure, or cell"
  | onlyUint8Vector => "Binary placeholders only accept UINT8 1-by-M or M-by-1 arrays!"
  | onlyCharVector => "String placeholders only accept CHAR 1-by-M or M-by-1 arrays!"
  | onlyCharArray => "String placeholders only accept CHAR 1-by-M arrays or M-by-1!"
  | unknownPlaceholder => "Unknow placeholders!"
  | unknownType => "Unknow type"
  | dj0 => "Blob data ingested utilizing DataJoint-Python version >=0.12 not yet supported."
  | compressionFailed => "Compression failed"
  | invalidId => "Invalid connection ID"
  | missingCommand => "The command string is missing!"
  | argsNotStrings => "All args must be strings, except id"
  | scanOnlyOpen =>
    "automatic free connection scan, only when issuing a mYm open command!"
  | noFreeId => "no free connection ID"
  | notConnected => "Not connected"
  | cannotInit => "Couldn't initialize MySQL connection object"
  | tlsStruct => "Custom TLS struct definition not supported yet."
  | noDatabase => "Must specify a database to use"
  | cannotCopyString => "Can't copy string in getstring()"
  | placeholdersNotClosed => "Placeholders are not correctly closed!"
  | placeholderNumber =>
    "The number of placeholders differs from that of additional arguments!"
  | bareBrace => "The query contains placeholders, but no additional arguments!"
  | deserializeMismatch => "There must be only one input and one output variable\n"
  | versionInputs => "Version command does not take additional inputs"
  | versionOutputs => "Zero or one output arguments allowed for version command"
  | invalidUtf8 => "Invalid block of UTF8 detected."
  | onlyScalars => "Only scalars are accepted!"
  | complexScalar => "Complex scalars are not supported"
  | unsupportedScalar =>
    "Unsupported type, the supported types are (U)INT 8 and 32, FLOAT and DOUBLE"
  | onlyStringOrScalar => "Only char string and non-complex scalar are supported"
  | couldNotOpen => "Could not open file"
  | noRow => "Internal error:  Failed to get a row"
  | nullBigint => "Invalid value NULL in a BIGINT column."
  | inconsistency => "Internal inconsistency"
  | oneOutput => "Must give one output argument"
  | createStructure => "Unable to create structure for output"
  | createNumericArray => "Unable to create numeric array for output"
  | createNumericMatrix => "Unable to create numeric matrix for output"
  | createCellMatrix => "Unable to create cell matrix for output"
  | client => ""
  | matlab => ""

abbrev Result := Outcome MexError

/-! ### Markers -/

/-- `mYm` -/
def idMatlab : Bytes := [109, 89, 109]
/-- `A` -/
def idArray : UInt8 := 65
/-- `P` -/
def idSparse : UInt8 := 80
/-- `C` -/
def idCell : UInt8 := 67
/-- `S` -/
def idStruct : UInt8 := 83

def sizeofUint64 : Nat := 8
/-- `sizeof` of `int`, `mxClassID` and `mxComplexity`. -/
def sizeofInt : Nat := 4

def headBytes (rhead : Bool) : Bytes := if rhead then idMatlab ++ [0] else []

/-- What a serializer hands back: the memory it filled and the size it reports. -/
structure Serial where
  bytes : Bytes
  rnBytes : Nat
  deriving DecidableEq, Repr

/-! ### Leaves -/

/-- The copy of the imaginary part, if there is one. -/
def copyImag (im : Option Bytes) (n : Nat) : Result Bytes :=
  match im with
  | some im => do
    let bs ← readBytes im 0 n
    .ok bs.1
  | none => .ok []

/-- The array in `rpArray` as `serializeArray` sees it, a sparse matrix included: its
dimensions, its class, and whatever data block it has. -/
def serializeArray (dims : List Nat) (cls elementSize : Nat) (re : Bytes) (im : Option Bytes)
    (rhead : Bool) : Result Serial := do
  let nbytesData := elementSize * dims.prod
  let nb := 1 + sizeofUint64 + dims.length * sizeofUint64 + sizeofInt + sizeofInt
    + (if im.isSome then nbytesData * 2 else nbytesData)
    + (if rhead then idMatlab.length + 1 else 0)
  let reData ← readBytes re 0 nbytesData
  let imData ← copyImag im nbytesData
  let written := headBytes rhead ++ [idArray] ++ leBytes sizeofUint64 dims.length
    ++ wordBytes sizeofUint64 dims ++ leBytes sizeofInt cls
    ++ leBytes sizeofInt (mxComplexity im) ++ reData.1 ++ imData
  if written.length > nb then .raised .notEnoughAllocated
  else .ok ⟨written, written.length⟩

def serializeSparse (a : SparseArray) (rhead : Bool) : Result Serial :=
  let nbytesData := (sparseClass a.isLogical).elementSize * a.nzmax
  let nb := 1 + 3 * sizeofUint64 + sizeofInt + sizeofInt + sizeofUint64 * (a.columns + 1)
    + sizeofUint64 * a.nzmax + nbytesData + (if a.im.isSome then nbytesData else 0)
    + (if rhead then idMatlab.length + 1 else 0)
  let written := headBytes rhead ++ [idSparse] ++ leBytes sizeofUint64 a.rows
    ++ leBytes sizeofUint64 a.columns ++ leBytes sizeofUint64 a.nzmax
    ++ leBytes sizeofInt (sparseClass a.isLogical).id ++ leBytes sizeofInt (mxComplexity a.im)
    ++ wordBytes sizeofUint64 a.jc ++ wordBytes sizeofUint64 a.ir ++ a.re ++ a.im.getD []
  if written.length > nb then .raised .notEnoughAllocated
  else .ok ⟨written, written.length⟩

/-! ### Containers -/

/-- The partial serializations, each behind its length. -/
def partBytes (parts : List Serial) : Bytes :=
  (parts.map fun p => leBytes sizeofUint64 p.rnBytes ++ p.bytes).flatten

/-- The copy loops of `serializeStruct`, after the partial serializations are there. -/
def putStruct (dims : List Nat) (fields : List CStr) (parts : List Serial) (rhead : Bool) :
    Result Serial :=
  let rnBytes := 1 + sizeofUint64 + dims.length * sizeofUint64
    + (if rhead then idMatlab.length + 1 else 0) + sizeofInt
    + (fields.map fun f => f.1.length + 1).sum + (parts.map fun p => p.rnBytes + sizeofUint64).sum
  let written := headBytes rhead ++ [idStruct] ++ leBytes sizeofUint64 dims.length
    ++ wordBytes sizeofUint64 dims ++ leBytes sizeofInt fields.length
    ++ (fields.map fun f => f.1 ++ [0]).flatten ++ partBytes parts
  -- the counter of the copy loop is an int, and runs over all fields of all elements
  if 2 ^ 31 ≤ fields.length * dims.prod then .undefined
  else if written.length ≠ rnBytes then .raised .notEnoughAllocated
  else .ok ⟨written, rnBytes⟩

/-- The copy loop of `serializeCell`. -/
def putCell (dims : List Nat) (parts : List Serial) (rhead : Bool) : Result Serial :=
  let rnBytes := 1 + (1 + dims.length) * sizeofUint64
    + (if rhead then idMatlab.length + 1 else 0) + (parts.map fun p => p.rnBytes + sizeofUint64).sum
  let written := headBytes rhead ++ [idCell] ++ leBytes sizeofUint64 dims.length
    ++ wordBytes sizeofUint64 dims ++ partBytes parts
  if written.length ≠ rnBytes then .raised .notEnoughAllocated
  else .ok ⟨written, rnBytes⟩

def serializeFull (a : FullArray) (rhead : Bool) : Result Serial :=
  serializeArray a.dims a.classId a.elementSize a.re a.im rhead

mutual
/-- A child of a container: the chain of class tests around the four serializers. -/
def serializeChild : MxArray → Result Serial
  | .sparse a => serializeSparse a false
  | .full a => serializeFull a false
  | .struct dims fields vals => do
    let parts ← serializeParts vals
    -- the build loop counts elements with an int
    if 2 ^ 31 ≤ dims.prod then .undefined else putStruct dims fields parts false
  | .cell dims vals => do
    let parts ← serializeParts vals
    if 2 ^ 31 ≤ dims.prod then .undefined else putCell dims parts false
  | .other _ => .raised .unsupportedType

/-- The build loops: every child in turn, a 0-by-0 double for a NULL one. -/
def serializeParts : List (Option MxArray) → Result (List Serial)
  | [] => .ok []
  | none :: vals => do
    let p ← serializeFull MxArray.emptyDouble false
    let ps ← serializeParts vals
    .ok (p :: ps)
  | some v :: vals => do
    let p ← serializeChild v
    let ps ← serializeParts vals
    .ok (p :: ps)
end

def serializeStruct (dims : List Nat) (fields : List CStr) (vals : List (Option MxArray))
    (rhead : Bool) : Result Serial := do
  let parts ← serializeParts vals
  if 2 ^ 31 ≤ dims.prod then .undefined else putStruct dims fields parts rhead

def serializeCell (dims : List Nat) (vals : List (Option MxArray)) (rhead : Bool) :
    Result Serial := do
  let parts ← serializeParts vals
  if 2 ^ 31 ≤ dims.prod then .undefined else putCell dims parts rhead

/-! ### Placeholders -/

/-- The functions `getSerialFct` chooses among. -/
inductive Serializer where
  | array | struct | cell | binary | file | string
  deriving DecidableEq, Repr

/-- `M`, `B`, `F`, `S`: the placeholder letters, and `u`, the preamble that switches
compression off. -/
def phMatlab : UInt8 := 77
def phBinary : UInt8 := 66
def phFile : UInt8 := 70
def phString : UInt8 := 83
def preNoCompression : UInt8 := 117

namespace MxArray

/-- `mxGetDimensions`. -/
def dims : MxArray → List Nat
  | .full a => a.dims
  | .sparse a => [a.rows, a.columns]
  | .struct dims _ _ => dims
  | .cell dims _ => dims
  | .other _ => [1, 1]

/-- `mxGetClassID`. -/
def classId : MxArray → Nat
  | .full a => a.classId
  | .sparse a => (sparseClass a.isLogical).id
  | .struct _ _ _ => 2
  | .cell _ _ => 1
  | .other c => c

/-- `1`-by-`M` or `M`-by-`1`. -/
def isVector (v : MxArray) : Bool :=
  v.dims.length == 2 && (v.dims[0]? == some 1 || v.dims[1]? == some 1)

end MxArray

/-- The serializer for `rparg` that the placeholder text `rpt` asks for, and whether the
result may be compressed. -/
def getSerialFct (rpt : Bytes) (rparg : MxArray) : Result (Serializer × Bool) :=
  let noCompression := rpt.head? == some preNoCompression
  let pt := if noCompression then rpt.tail else rpt
  if pt.head? = some phMatlab then
    match rparg with
    | .full _ | .sparse _ => .ok (.array, !noCompression)
    | .cell _ _ => .ok (.cell, !noCompression)
    | .struct _ _ _ => .ok (.struct, !noCompression)
    | .other _ => .raised .onlyArrayStructOrCell
  else if pt.head? = some phBinary then
    if !rparg.isVector || rparg.classId != MxClass.uint8.id then .raised .onlyUint8Vector
    else .ok (.binary, !noCompression)
  else if pt.head? = some phFile then
    if !rparg.isVector || rparg.classId != MxClass.char.id then .raised .onlyCharVector
    else .ok (.file, !noCompression)
  else if pt.head? = some phString then .ok (.string, false)
  else .raised .unknownPlaceholder

/-- `serializeBinary`: the data of the array. -/
def serializeBinary (rparg : MxArray) : Result Serial :=
  match rparg with
  | .full a => .ok ⟨a.re, a.dims.prod⟩
  | _ => .undefined

/-- The call through the function pointer, with the head.  What `serializeFile` and
`serializeString` produce is `outer`. -/
def Serializer.run (outer : Serializer → MxArray → Result Serial) (s : Serializer)
    (rparg : MxArray) : Result Serial :=
  match s, rparg with
  | .array, .full a => serializeFull a true
  | .array, .sparse a =>
    serializeArray [a.rows, a.columns] (sparseClass a.isLogical).id
      (sparseClass a.isLogical).elementSize a.re a.im true
  | .struct, .struct dims fields vals => serializeStruct dims fields vals true
  | .cell, .cell dims vals => serializeCell dims vals true
  | .binary, v => serializeBinary v
  | .file, v => outer .file v
  | .string, v => outer .string v
  | _, _ => .undefined

end Mym
