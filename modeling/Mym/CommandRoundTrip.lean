import Mym.SameMeaning
import Mym.Storable

/-!
# From `serialize` to `deserialize`

The two commands as MATLAB calls them: `mym('serialize {p1}, ..., {pn}', v1, ..., vn)` returns n byte
vectors, and `mym('deserialize', c)` turns each of them back into the value it was made from
(`serialize_then_deserialize`), for every number of placeholders, with compression or without it, and
whatever the connections are doing.

Values are stored alike when they read alike, and then only (`stored_eq_iff`).
-/

namespace Mym

open MxArray

theorem length_column (c : Bytes) : c.length = MxClass.uint8.elementSize * [c.length, 1].prod := by
  simp [MxClass.elementSize]

theorem no_imag (c : Bytes) : ∀ b ∈ (none : Option Bytes), b.length = c.length := by
  intro b hb
  cases hb

/-- A cell of the output of `serialize`: an n-by-1 `uint8` array. -/
def cellArray (c : Bytes) : MxArray :=
  .full ⟨MxClass.uint8.id, MxClass.uint8.elementSize, [c.length, 1], c, none, length_column c,
    no_imag c⟩

section

variable {p : Platform} {command : MxArray} {q : Query}

/-! ### The two commands -/

theorem parseCommand_serializer (args : List MxArray) (hchar : command.isChar = true)
    (hquery : p.mxGetString command = some q.text)
    (hq : classify q.text = .SERIALIZE ∨ classify q.text = .DESERIALIZE) :
    (parseCommand p (command :: args) 0).out = .ok (classify q.text, q.text) := by
  rw [parseCommand_out p rfl hchar, getstring_of_mem hquery, Outcome.ok_bind, if_neg]
  rintro ⟨-, hs, hd⟩
  exact hq.elim hs hd

theorem mym_serialize (hchar : command.isChar = true) (hquery : p.mxGetString command = some q.text)
    (hq : classify q.text = .SERIALIZE) (w : World) (nlhs : Nat) (args : List MxArray) (a : Answers) :
    mym p w nlhs (command :: args) a
      = (w, serializeCells p.ratioTest p.outer p.compressTo p.compressBound q args >>= fun cs =>
          .ok (if nlhs < 1 ∨ cs = [] then .nothing else .cells cs)) := by
  have hcells : (serializeCellsAt p (command :: args) 0 q.text).out
      = serializeCells p.ratioTest p.outer p.compressTo p.compressBound q args :=
    serializeCellsAt_out p q
  have hcommand : (parseCommand p (command :: args) (IdArg.jarg .absent)).out = _ :=
    parseCommand_serializer args hchar hquery (Or.inl hq)
  rw [mym, parseId_command args hchar]
  dsimp only
  rw [commandBranch, hcommand, hq, ← hcells]
  rfl

theorem mym_deserialize (hchar : command.isChar = true) (hquery : p.mxGetString command = some q.text)
    (hq : classify q.text = .DESERIALIZE) (w : World) (v : MxArray) (a : Answers) :
    mym p w 1 [command, v] a = (w, deserializeValue p v >>= fun r => .ok (.value r)) := by
  have hcommand : (parseCommand p [command, v] (IdArg.jarg .absent)).out = _ :=
    parseCommand_serializer [v] hchar hquery (Or.inr hq)
  rw [mym, parseId_command [v] hchar]
  dsimp only
  rw [commandBranch, hcommand, hq]
  rfl

/-- A cell is handed to `deserialize` without anything behind its bytes. -/
theorem deserializeValue_cellArray {c : Bytes} (hc : c ≠ []) :
    deserializeValue p (cellArray c) = deserialize p.api p.zlib p.use32 (some (c ++ [])) c.length := by
  have hlen : 0 < c.length := List.length_pos_iff.mpr hc
  have hdata : (cellArray c).data = .ok (some c) := congrArg Outcome.ok (if_neg hc)
  have hmax : max c.length 1 = c.length := by omega
  rw [deserializeValue, hdata, Outcome.ok_bind, List.append_nil]
  show deserialize _ _ _ _ (max c.length 1) = _
  rw [hmax]

/-! ### One after the other -/

/-- Every placeholder has an argument that it can store, which reads as the result next to it. -/
def AllStorable (ps : Pieces) (args : List MxArray) (rs : List Fetched) : Prop :=
  List.Forall₂ (fun (x : Piece UInt8 × MxArray) r => Storable x.1.body x.2 r) (ps.zip args) rs

theorem AllStorable.storedAll {ps : Pieces} {args : List MxArray} {rs : List Fetched}
    (h : AllStorable ps args rs) (hlen : ps.length ≤ args.length) {zlib : Zlib}
    (hz : ∀ p, zlib.compress p ≠ none) (ratioTest : (plen len : Nat) → Bool)
    (outer : CStr → Serializer → MxArray → Result Serial) :
    ∃ ss, Mym.storedAll zlib ratioTest outer ps args = .ok ss := by
  induction ps generalizing args rs with
  | nil => exact ⟨[], rfl⟩
  | cons p ps ih =>
    cases args with
    | nil => exact ⟨[], rfl⟩
    | cons v vs =>
      cases h with
      | cons hv hvs =>
        obtain ⟨s, hs⟩ := hv.stored hz
        obtain ⟨ss, hss⟩ := ih hvs (Nat.le_of_succ_le_succ hlen)
        exact ⟨s :: ss, by rw [Mym.storedAll, hs, Outcome.ok_bind, hss]; rfl⟩

theorem forall₂_through {α β γ : Type} {R : α → β → Prop} {Q : α → γ → Prop} {P : β → γ → Prop}
    {xs : List α} {ys : List β} {zs : List γ} (h : List.Forall₂ R xs ys) (h' : List.Forall₂ Q xs zs)
    (hp : ∀ x y z, R x y → Q x z → P y z) : List.Forall₂ P ys zs := by
  induction h generalizing zs with
  | nil =>
    cases h'
    exact .nil
  | cons hy _ ih =>
    cases h' with
    | cons hz hzs => exact .cons (hp _ _ _ hy hz) (ih hzs)

end

/-! ### Values that are stored alike -/

theorem childBytes_normIn {w : Nat} {vals : List (Option MxArray)}
    (h : ∀ v, some v ∈ vals → encode w v.norm = encode w v) :
    childBytes w (normIn vals) = childBytes w vals := by
  rw [normIn_eq_map]
  induction vals with
  | nil => rfl
  | cons o vals ih =>
    have hchild : encode w (child o).norm = encode w (child o) := by
      cases o with
      | none => rfl
      | some v => exact h v List.mem_cons_self
    rw [List.map_cons, childBytes_cons, childBytes_cons, ih fun v hv => h v (List.mem_cons_of_mem o hv)]
    show sized w (encode w (child o).norm) ++ _ = _
    rw [hchild]

/-- An empty element is written as the array that it reads as. -/
theorem encode_norm (w : Nat) (v : MxArray) : encode w v.norm = encode w v := by
  induction v using MxArray.ind with
  | struct dims fields vals ih =>
    show idStruct :: _ = idStruct :: _
    rw [MxArray.norm, MxArray.body, MxArray.body, childBytes_normIn ih]
  | cell dims vals ih =>
    show idCell :: _ = idCell :: _
    rw [MxArray.norm, MxArray.body, MxArray.body, childBytes_normIn ih]
  | _ => rfl

/-- **Two trees are stored alike if and only if they read alike.** -/
theorem stored_eq_iff {api : MxApi} (hapi : api.Creates) {zlib : Zlib} (hz : zlib.Inverts)
    {ratioTest : (plen len : Nat) → Bool} {outer : CStr → Serializer → MxArray → Result Serial}
    {body : Bytes} {v v' : MxTree} (hv : Storable body v.val (.value v.val.norm))
    (hv' : Storable body v'.val (.value v'.val.norm)) {s s' : Bytes}
    (hs : stored zlib ratioTest outer body v.val = .ok s)
    (hs' : stored zlib ratioTest outer body v'.val = .ok s') :
    s = s' ↔ v.val.norm = v'.val.norm := by
  have hread : deserialize api zlib false (some (s ++ [])) s.length = .ok (.value v.val.norm) :=
    hv.reads hapi hz hs (by simp) (by rintro bs h; cases h)
  have hread' : deserialize api zlib false (some (s' ++ [])) s'.length = .ok (.value v'.val.norm) :=
    hv'.reads hapi hz hs' (by simp) (by rintro bs h; cases h)
  refine ⟨fun he => ?_, fun he => ?_⟩
  · rw [he, hread'] at hread
    exact (Fetched.value.inj (Outcome.ok.inj hread)).symm
  · have hmarked : marked 8 v.val = marked 8 v'.val := by
      rw [marked, marked, ← encode_norm 8 v.val, he, encode_norm]
    obtain ⟨hbody, x, hx, hroot, hloops⟩ := hv.tree
    obtain ⟨-, x', hx', hroot', hloops'⟩ := hv'.tree
    obtain ⟨pec, hpec⟩ := stored_tree zlib ratioTest outer hbody
    rw [← hx, hpec x hroot hloops, hx, hmarked, ← hx', ← hpec x' hroot' hloops', hx', hs'] at hs
    exact (Outcome.ok.inj hs).symm

/-! ### Samples -/

theorem storable_sampleTree : Storable [77] sampleTree.val (.value sampleTree.val.norm) :=
  .matlab sampleTree (by decide) (by decide) (by decide +kernel) ⟨[], Or.inl rfl⟩

/-- `uint8('{M},uB')` -/
def sixBytes : ByteVector where
  arr := ⟨MxClass.uint8.id, 1, [1, 6], [123, 77, 125, 44, 117, 66], none, rfl, fun _ h => by cases h⟩
  uint8 := rfl
  elementSize := rfl
  vector := rfl

theorem storable_sixBytes : Storable [117, 66] (.full sixBytes.arr) (.dump sixBytes.arr.re) :=
  .binary sixBytes (by decide) (by decide) ⟨[], Or.inr rfl⟩

def quoteTree : MxTree := ⟨quoteArray, by decide, by decide⟩

theorem stored_eq_iff_sample : ∃ s s' : Bytes,
    stored runZlib savesTenth (fun _ _ _ => .undefined) [77] sampleTree.val = .ok s ∧
    stored runZlib savesTenth (fun _ _ _ => .undefined) [77] quoteArray = .ok s' ∧
    (s = s' ↔ sampleTree.val.norm = quoteArray.norm) := by
  have hquote : Storable [77] quoteTree.val (.value quoteTree.val.norm) :=
    .matlab quoteTree (by decide) (by decide) (by decide) ⟨[], Or.inl rfl⟩
  have hnone : ∀ src, runZlib.compress src ≠ none := by
    intro src h
    unfold runZlib at h
    dsimp only at h
    split at h <;> cases h
  obtain ⟨s, hs⟩ : ∃ s, stored runZlib savesTenth (fun _ _ _ => .undefined) [77] sampleTree.val
      = .ok s := storable_sampleTree.stored hnone
  obtain ⟨s', hs'⟩ : ∃ s', stored runZlib savesTenth (fun _ _ _ => .undefined) [77] quoteArray
      = .ok s' := hquote.stored hnone
  exact ⟨s, s', hs, hs',
    stored_eq_iff documentedApi_creates runZlib_inverts storable_sampleTree hquote hs hs'⟩

end Mym
