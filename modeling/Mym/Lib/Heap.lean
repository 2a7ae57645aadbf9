import Mym.Lib.Memory

/-!
# Blocks on a heap

What `mxCalloc` and `mxFree` do to whole blocks.  A block has an address, `alloc` takes one that
was never used, and to use a block that has been freed is undefined.
-/

namespace Mym

abbrev Ptr := Nat

/-- The blocks that have been allocated, by address; `none` is one that has been freed. -/
structure Heap where
  blocks : List (Option Bytes)

namespace Heap

variable {ε : Type}

def empty : Heap := ⟨[]⟩

/-- A new block with the given bytes. -/
def alloc (h : Heap) (bs : Bytes) : Heap × Ptr := (⟨h.blocks ++ [some bs]⟩, h.blocks.length)

/-- The bytes of a block. -/
def load (h : Heap) (p : Ptr) : Outcome ε Bytes :=
  match h.blocks[p]? with
  | some (some bs) => .ok bs
  | _ => .undefined

def free (h : Heap) (p : Ptr) : Outcome ε Heap := do
  let _ ← h.load p
  .ok ⟨h.blocks.set p none⟩

theorem load_alloc (h : Heap) (bs : Bytes) : (h.alloc bs).1.load (ε := ε) (h.alloc bs).2 = .ok bs := by
  rw [load, alloc, List.getElem?_append_right (Nat.le_refl _), Nat.sub_self]
  rfl

/-- A new block leaves the others as they are. -/
theorem load_alloc_old (h : Heap) (bs : Bytes) {p : Ptr} {old : Bytes}
    (hp : h.load (ε := ε) p = .ok old) : (h.alloc bs).1.load (ε := ε) p = .ok old := by
  have hlt : p < h.blocks.length := by
    by_contra hge
    rw [load, List.getElem?_eq_none (Nat.not_lt.mp hge)] at hp
    cases hp
  rw [load] at hp ⊢
  rw [alloc, List.getElem?_append_left hlt]
  exact hp

theorem free_eq_ok {h : Heap} {p : Ptr} {bs : Bytes} (hp : h.load (ε := ε) p = .ok bs) :
    h.free (ε := ε) p = .ok ⟨h.blocks.set p none⟩ := by
  rw [free, hp, Outcome.ok_bind]

/-- A block is dead once it has been freed. -/
theorem load_free {h h' : Heap} {p : Ptr} (hp : h.free (ε := ε) p = .ok h') :
    h'.load (ε := ε) p = .undefined := by
  obtain ⟨bs, -, hfree⟩ := Outcome.bind_eq_ok hp
  cases hfree
  rw [load, List.getElem?_set_self']
  cases h.blocks[p]? with
  | none => rfl
  | some b => rfl

end Heap

end Mym
