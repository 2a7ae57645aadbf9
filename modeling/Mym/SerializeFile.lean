import Mym.Preamble
import Mym.ResultSet

/-!
# The file serializer

`serializeFile` stores the file whose name a `{F}` placeholder is given.  `fileLength` measures it: it
moves to the end of the file, where `ftell` returns the size, and back.  Both values of `ftell` are a
`long` and are kept in an `int`, and the size becomes a `size_t` again.

`storesWhole_iff` says which files are stored whole.  Of a larger file a part is stored
(`serializeFile_part`), or more memory is asked for than there can be (`rnBytes_huge`).
-/

namespace Mym

/-- An open file: what it holds, and its position, which may lie behind the end. -/
@[ext] structure File where
  contents : Bytes
  pos : Nat

namespace File

/-- `ftell`, in an `int` -/
def tell (f : File) : Int := toInt32 (f.pos % 2 ^ 32)

/-- `fseek(f, 0, SEEK_END)` -/
def seekEnd (f : File) : File := { f with pos := f.contents.length }

/-- `fseek(f, pos, SEEK_SET)`, which fails and moves nothing for a negative position. -/
def seekSet (f : File) (pos : Int) : File := if pos < 0 then f else { f with pos := pos.toNat }

/-- `fread` -/
def read (f : File) (n : Nat) : Bytes := (f.contents.drop f.pos).take n

end File

/-- `file_length`, and the file behind it -/
def fileLength (f : File) : Int × File :=
  let pos := f.tell
  let f := f.seekEnd
  let last := f.tell
  (last, f.seekSet pos)

/-- What `serializeFile` calls. -/
structure FileApi where
  /-- the name in a buffer of so many bytes -/
  mxGetString : MxArray → Nat → CStr
  /-- what is in the file of a name -/
  fopen : CStr → Option Bytes
  /-- is there so much memory? -/
  mxCalloc : Nat → Bool

/-- The memory is zero where nothing is read into it. -/
def serializeFile (api : FileApi) (v : MxArray) : Result Serial := do
  let m ← readEntry v.dims 0
  let n ← readEntry v.dims 1
  match api.fopen (api.mxGetString v (max m n + 1)) with
  | none => .raised .couldNotOpen
  | some contents =>
    let (last, pf) := fileLength ⟨contents, 0⟩
    let rnBytes := (last % 2 ^ 64).toNat
    if api.mxCalloc rnBytes then
      let bytes := pf.read rnBytes
      .ok ⟨bytes ++ List.replicate (rnBytes - bytes.length) 0, rnBytes⟩
    else .raised .matlab

/-! ### The length -/

theorem throughInt_of_lt {n : Nat} (h : n % 2 ^ 32 < 2 ^ 31) : throughInt n = n % 2 ^ 32 := by
  rw [throughInt, toInt32, if_pos h]
  omega

/-- **A size with a set sign bit** asks for nearly all there is. -/
theorem rnBytes_huge {n : Nat} (h : 2 ^ 31 ≤ n % 2 ^ 32) : 2 ^ 64 - 2 ^ 31 ≤ throughInt n := by
  rw [throughInt, toInt32, if_neg (by omega)]
  omega

theorem fileLength_fst (f : File) : (fileLength f).1 = toInt32 (f.contents.length % 2 ^ 32) := rfl

section Length

variable (f : File)

theorem fileLength_contents : (fileLength f).2.contents = f.contents := by
  show (f.seekEnd.seekSet f.tell).contents = f.contents
  unfold File.seekSet
  split
  · rfl
  · rfl

theorem fileLength_pos : (fileLength f).2.pos
    = if f.tell < 0 then f.contents.length else f.tell.toNat := by
  show (f.seekEnd.seekSet f.tell).pos = _
  unfold File.seekSet
  split
  · rfl
  · rfl

/-- The position is lost when an `int` cannot hold it: a negative one leaves the file at its end. -/
theorem fileLength_restores_iff (h : f.contents.length < 2 ^ 31) :
    (fileLength f).2 = f ↔ f.pos < 2 ^ 31 := by
  have htell := toInt32_eq_iff f.pos
  rw [File.ext_iff, and_iff_right (fileLength_contents f), fileLength_pos, File.tell]
  split
  · omega
  · omega

/-- **What `fileLength` is for**: it returns the size, and the file is as it was. -/
theorem fileLength_eq_iff : fileLength f = ((f.contents.length : Int), f) ↔
    f.contents.length < 2 ^ 31 ∧ f.pos < 2 ^ 31 := by
  rw [Prod.ext_iff, fileLength_fst, toInt32_eq_iff]
  constructor
  · intro h
    exact ⟨h.1, (fileLength_restores_iff f h.1).mp h.2⟩
  · intro h
    exact ⟨h.1, (fileLength_restores_iff f h.1).mpr h.2⟩

end Length

/-! ### What is stored -/

/-- `contents` is in the file whose name is given. -/
def FileApi.Opens (api : FileApi) (v : MxArray) (contents : Bytes) : Prop :=
  ∃ m n, v.dims = [m, n] ∧ api.fopen (api.mxGetString v (max m n + 1)) = some contents

section Stored

variable {api : FileApi} {v : MxArray} {contents : Bytes} (hopen : api.Opens v contents)

include hopen

/-- What is stored is as long as the size after its conversions, with zeros behind the end of the file. -/
theorem serializeFile_eq : serializeFile api v
    = if api.mxCalloc (throughInt contents.length) then
        .ok ⟨contents.take (throughInt contents.length)
          ++ List.replicate (throughInt contents.length - contents.length) 0,
          throughInt contents.length⟩
      else .raised .matlab := by
  obtain ⟨m, n, hdims, hfile⟩ := hopen
  have hm : readEntry (ε := MexError) v.dims 0 = .ok m := by
    rw [hdims]
    rfl
  have hn : readEntry (ε := MexError) v.dims 1 = .ok n := by
    rw [hdims]
    rfl
  have hpad : throughInt contents.length - (contents.take (throughInt contents.length)).length
      = throughInt contents.length - contents.length := by
    rw [List.length_take]
    omega
  rw [serializeFile, hm, Outcome.ok_bind, hn, Outcome.ok_bind, hfile, ← hpad]
  rfl

/-- **A part is stored**, and no error is raised, where the conversions leave a smaller size. -/
theorem serializeFile_part (hlarge : 2 ^ 32 ≤ contents.length)
    (hbit : contents.length % 2 ^ 32 < 2 ^ 31) (hmem : api.mxCalloc (contents.length % 2 ^ 32) = true) :
    serializeFile api v = .ok ⟨contents.take (contents.length % 2 ^ 32), contents.length % 2 ^ 32⟩ := by
  have hpad : contents.length % 2 ^ 32 - contents.length = 0 := by omega
  rw [serializeFile_eq hopen, throughInt_of_lt hbit, if_pos hmem, hpad, List.replicate_zero,
    List.append_nil]

end Stored

/-- **The file is stored whole.**  From any position its size is measured and the position restored; no
other size is allocated, reported and read. -/
structure StoresWhole (api : FileApi) (v : MxArray) (contents : Bytes) (pos : Nat) : Prop where
  measured : fileLength ⟨contents, pos⟩ = ((contents.length : Int), ⟨contents, pos⟩)
  stored : serializeFile api v =
    if api.mxCalloc contents.length then .ok ⟨contents, contents.length⟩ else .raised .matlab

/-- **Which files are stored whole**: size and position are below `2 ^ 31`. -/
theorem storesWhole_iff {api : FileApi} {v : MxArray} {contents : Bytes} (hopen : api.Opens v contents)
    (pos : Nat) : StoresWhole api v contents pos ↔ contents.length < 2 ^ 31 ∧ pos < 2 ^ 31 := by
  rw [← fileLength_eq_iff ⟨contents, pos⟩]
  constructor
  · intro h
    exact h.measured
  · intro h
    have hlen : contents.length < 2 ^ 31 := ((fileLength_eq_iff ⟨contents, pos⟩).mp h).1
    have hthrough : throughInt contents.length = contents.length := by
      rw [throughInt_of_lt (by omega)]
      omega
    refine ⟨h, ?_⟩
    rw [serializeFile_eq hopen, hthrough, List.take_length, Nat.sub_self, List.replicate_zero,
      List.append_nil]

/-- So a `{F}` placeholder stores what is in its file. -/
theorem fieldBytes_file {api : FileApi} {mem contents : Bytes} {f : Field} (hf : f.pf = .file) {s : CStr}
    (hs : readCStr (ε := MexError) mem f.pa = .ok s) (hopen : api.Opens f.arg contents)
    (hsize : contents.length < 2 ^ 31) (hmem : api.mxCalloc contents.length = true) (fuel : Nat)
    (lone : Nat → Nat) (junk : UInt8) :
    fieldBytes (stringOrFile fuel lone junk (serializeFile api)) mem f = .ok contents := by
  have hwhole := (storesWhole_iff hopen 0).mpr ⟨hsize, by decide⟩
  have hread := readBytes_start contents []
  rw [List.append_nil] at hread
  rw [fieldBytes_eq hs, hf]
  show serializeFile api f.arg >>= _ = _
  rw [hwhole.stored, if_pos hmem, Outcome.ok_bind, hread]
  rfl

/-- `'f'` -/
def nameArray : MxArray := .full ⟨MxClass.char.id, 2, [1, 1], [102, 0], none, rfl, by simp⟩

/-- There is one file. -/
def oneFile (contents : Bytes) : FileApi where
  mxGetString _ _ := textOf [102]
  fopen name := if name.1 = [102] then some contents else none
  mxCalloc n := n < 2 ^ 32

theorem opens_oneFile (contents : Bytes) : (oneFile contents).Opens nameArray contents :=
  ⟨1, 1, rfl, rfl⟩

theorem storesWhole_two : StoresWhole (oneFile [104, 105]) nameArray [104, 105] 1 :=
  (storesWhole_iff (opens_oneFile [104, 105]) 1).mpr ⟨by decide, by decide⟩

/-- Of a file of `2 ^ 32` bytes nothing is stored, and no error is raised. -/
theorem nothing_stored {contents : Bytes} (hlen : contents.length = 2 ^ 32) :
    (fileLength ⟨contents, 0⟩).1 = 0 ∧
      serializeFile (oneFile contents) nameArray = .ok ⟨[], 0⟩ ∧
      ¬StoresWhole (oneFile contents) nameArray contents 0 := by
  have hlast : (fileLength ⟨contents, 0⟩).1 = 0 := by
    rw [fileLength_fst, hlen]
    rfl
  have hzero : contents.length % 2 ^ 32 = 0 := by omega
  have hrun := serializeFile_part (opens_oneFile contents) (by omega) (by omega)
    (by rw [hzero]; rfl)
  rw [hzero, List.take_zero] at hrun
  refine ⟨hlast, hrun, ?_⟩
  intro h
  have hmeasured : (fileLength ⟨contents, 0⟩).1 = (contents.length : Int) := congrArg Prod.fst h.measured
  omega

/-- **A file of `2 ^ 32` bytes is not stored.** -/
theorem storesWhole_fails :
    (fileLength ⟨List.replicate (2 ^ 32) 1, 0⟩).1 = 0 ∧
      serializeFile (oneFile (List.replicate (2 ^ 32) 1)) nameArray = .ok ⟨[], 0⟩ ∧
      ¬StoresWhole (oneFile (List.replicate (2 ^ 32) 1)) nameArray (List.replicate (2 ^ 32) 1) 0 :=
  nothing_stored List.length_replicate

end Mym
