import Mym.Command
import Mym.Frame
import Mym.Lib.Brackets

/-!
# Placeholder processing

What the query branch does between the ping and the brace step: it counts the flag words at
the end of the arguments, looks for the placeholders, serializes the arguments and builds
the new query.  Positions in the query are offsets, and the tables `po` and `pc` have
`expected + 1` entries, NULL being `none`.

What `mxGetString` makes of a char array, what `serializeFile` and `serializeString` produce
for the text inside the placeholder, zlib, and `mysql_real_escape_string` are parameters.
-/

namespace Mym

/-- `PH_OPEN`, `PH_CLOSE` -/
def phOpen : UInt8 := 123
def phClose : UInt8 := 125

/-- `bigint_to_double` -/
def mlFlagBigintToDouble : Bytes :=
  [98, 105, 103, 105, 110, 116, 95, 116, 111, 95, 100, 111, 117, 98, 108, 101]

/-! ### Looking for the placeholders -/

/-- `strstr` for a string of one byte. -/
def strstr (mem : Bytes) (p : Nat) (c : UInt8) : Result (Option Nat) := do
  let s ← readCStr mem p
  .ok ((s.1.idxOf? c).map (p + ·))

structure Scan where
  po : List (Option Nat)
  pc : List (Option Nat)
  nac : Nat

/-- `while (po[nac-1]&&nac<=expectedNumberOfPlaceholders)` -/
def scanLoop (mem : Bytes) (expected : Nat) : (fuel : Nat) → Scan → Result Scan
  | 0, _ => .diverged
  | fuel + 1, s => do
    let o ← readEntry s.po (s.nac - 1)
    match o with
    | none => .ok s
    | some o =>
      if s.nac ≤ expected then do
        let c ← strstr mem (o + 1) phClose
        let pc ← writeEntry s.pc (s.nac - 1) c
        match c with
        | none => .raised .placeholdersNotClosed
        | some c => do
          let o ← strstr mem (c + 1) phOpen
          let po ← writeEntry s.po s.nac o
          scanLoop mem expected fuel ⟨po, pc, s.nac + 1⟩
      else .ok s

/-- The placeholders of the query in `mem`.  `nac` is one ahead as long as the loop runs. -/
def scan (mem : Bytes) (expected : Nat) : Result Scan := do
  let o ← strstr mem 0 phOpen
  let po ← writeEntry (List.replicate (expected + 1) none) 0 o
  let s ← scanLoop mem expected (expected + 1) ⟨po, List.replicate (expected + 1) none, 1⟩
  .ok { s with nac := s.nac - 1 }

/-! ### Flags -/

/-- The query as `getstring` hands it over: the size of the buffer is an `int`. -/
structure Query where
  text : CStr
  length_lt : text.1.length < 2 ^ 31

/-- `getstring` -/
def getstring (mxGetString : MxArray → Option CStr) (a : MxArray) : Result CStr :=
  match mxGetString a with
  | some s => .ok s
  | none => .raised .cannotCopyString

/-- The flag words at the end of the arguments, which are given last to first. -/
def countFlags (mxGetString : MxArray → Option CStr) : List MxArray → Result Nat
  | [] => .ok 0
  | v :: vs =>
    if v.classId = MxClass.char.id then do
      let s ← getstring mxGetString v
      if strcaseEq s.1 mlFlagBigintToDouble then do
        let n ← countFlags mxGetString vs
        .ok (n + 1)
      else .ok 0
    else .ok 0

/-- The number of flags, after the placeholders have taken their arguments. -/
def adjustFlags (nac expected nbFlags : Nat) : Result Nat :=
  if nac < expected ∧ expected - nbFlags ≤ nac then .ok (expected - nac)
  else if nac ≠ expected then .raised .placeholderNumber
  else .ok nbFlags

/-! ### Reading the types -/

/-- The tables `po`, `ps`, `pa`, `pf` and `pec` at one index, with the argument. -/
structure Field where
  po : Nat
  ps : Nat
  pa : Nat
  pf : Serializer
  pec : Bool
  arg : MxArray

/-- `po[i]`, `pc[i]` and the argument `i`, for `n` indices from `i` on. -/
def entries (s : Scan) : (i n : Nat) → List MxArray → Result (List ((Nat × Nat) × MxArray))
  | _, 0, _ => .ok []
  | _, _ + 1, [] => .outside
  | i, n + 1, v :: vs => do
    let o ← readEntry s.po i
    let c ← readEntry s.pc i
    match o, c with
    | some o, some c => do
      let es ← entries s (i + 1) n vs
      .ok (((o, c), v) :: es)
    | _, _ => .undefined

/-- The loop that reads the types and ends every placeholder with a NUL. -/
def readTypes (mem : Bytes) : List ((Nat × Nat) × MxArray) → Result (Bytes × List Field)
  | [] => .ok (mem, [])
  | ((o, c), v) :: es => do
    let f ← getSerialFct (mem.drop (o + 1)) v
    let mem ← writeBytes mem c [0]
    let r ← readTypes mem es
    .ok (r.1, ⟨o, (c - o + 1) % 2 ^ 32, o + 2, f.1, f.2, v⟩ :: r.2)

/-! ### Building the new query -/

section Build

variable (zlib : Zlib) (ratioTest : (plen len : Nat) → Bool)
  (outer : CStr → Serializer → MxArray → Result Serial) (escape : Bytes → Bytes)

/-- `pd[i]` and `plen[i]` -/
def serializeField (mem : Bytes) (f : Field) : Result Bytes := do
  let rpArg ← readCStr mem f.pa
  let s ← f.pf.run (outer rpArg) f.arg
  let pd ← readBytes s.bytes 0 s.rnBytes
  compressField zlib ratioTest f.pec pd.1

def serializeFields (mem : Bytes) : List Field → Result (List Bytes)
  | [] => .ok []
  | f :: fs => do
    let pd ← serializeField zlib ratioTest outer mem f
    let pds ← serializeFields mem fs
    .ok (pd :: pds)

/-- The new query, and how far it and the old one have been dealt with. -/
structure Copy where
  nq : Bytes
  pnq : Nat
  poq : Nat

/-- `mysql_real_escape_string`.  It may use twice the length of the data and a byte more. -/
def realEscapeString (nq : Bytes) (pnq : Nat) (pd : Bytes) : Result Bytes :=
  if pnq + (2 * pd.length + 1) ≤ nq.length then writeBytes nq pnq (escape pd ++ [0])
  else .outside

def copyField (mem : Bytes) (s : Copy) (f : Field) (pd : Bytes) : Result Copy :=
  -- a negative difference is a huge length
  if f.po < s.poq then .outside
  else do
    let text ← readBytes mem s.poq (f.po - s.poq)
    let nq ← writeBytes s.nq s.pnq text.1
    let pnq := s.pnq + (f.po - s.poq)
    let nq ← realEscapeString escape nq pnq pd
    .ok ⟨nq, pnq + (escape pd).length, f.po + f.ps⟩

def copyFields (mem : Bytes) : Copy → List (Field × Bytes) → Result Copy
  | s, [] => .ok s
  | s, (f, pd) :: fs => do
    let s ← copyField escape mem s f pd
    copyFields mem s fs

/-- `nq` and its length, the NUL included. -/
def buildQuery (mem : Bytes) (lengthOfQuery : Nat) (fs : List Field) (pds : List Bytes) :
    Result (Bytes × Nat) := do
  let nb := (pds.map List.length).sum
  let nq := List.replicate (2 * nb + lengthOfQuery + 1) 0
  let s ← copyFields escape mem ⟨nq, 0, 0⟩ (fs.zip pds)
  if lengthOfQuery < s.poq then .outside
  else do
    let text ← readBytes mem s.poq (lengthOfQuery - s.poq + 1)
    let nq ← writeBytes s.nq s.pnq text.1
    .ok (nq, s.pnq + (lengthOfQuery - s.poq + 1))

/-- The arguments put in the places of the placeholders that the scan has found. -/
def fillPlaceholders (mem : Bytes) (lengthOfQuery : Nat) (s : Scan) (args : List MxArray) :
    Result (Bytes × Nat) := do
  let es ← entries s 0 s.nac args
  let r ← readTypes mem es
  let pds ← serializeFields zlib ratioTest outer r.1 r.2
  buildQuery escape r.1 lengthOfQuery r.2 pds

/-- The memory of the new query with its length, the number of placeholders, and that of the
flags. -/
structure Processed where
  query : Bytes
  lengthOfQuery : Nat
  nac : Nat
  nbFlags : Nat

def processPlaceholders (mxGetString : MxArray → Option CStr) (query : Query)
    (args : List MxArray) : Result Processed := do
  let mem := query.text.1 ++ [0]
  let lengthOfQuery := query.text.1.length
  let nbFlags ← countFlags mxGetString args.reverse
  if args.length = 0 then .ok ⟨mem, lengthOfQuery, 0, nbFlags⟩
  else do
    let s ← scan mem args.length
    let nbFlags ← adjustFlags s.nac args.length nbFlags
    let q ← fillPlaceholders zlib ratioTest outer escape mem lengthOfQuery s args
    .ok ⟨q.1, q.2, s.nac, nbFlags⟩

end Build

end Mym
