import Mym.Lib.Memory

/-!
# Writing through a running pointer

A block of memory and a pointer into it that moves past what it writes (`Cursor`).  A block
of zeros that has been written to from its beginning is `filled done room`: the bytes
`done`, and room for `room` more.  Each write takes from the room and adds to the bytes
(`put_filled`, `puts_filled`), so a program that writes exactly as much as it has allocated
ends without room, and the block holds what it wrote.
-/

namespace Mym

structure Cursor where
  mem : Bytes
  pos : Nat
  deriving DecidableEq

namespace Cursor

variable {ε : Type}

/-- `bs` written at the pointer. -/
def put (c : Cursor) (bs : Bytes) : Outcome ε Cursor := do
  let mem ← writeBytes c.mem c.pos bs
  .ok ⟨mem, c.pos + bs.length⟩

/-- Several pieces one after another. -/
def puts (c : Cursor) : List Bytes → Outcome ε Cursor
  | [] => .ok c
  | bs :: bss => do
    let c ← c.put bs
    c.puts bss

/-- The bytes `done` behind the pointer and `room` zeros in front of it. -/
def filled (done : Bytes) (room : Nat) : Cursor := ⟨done ++ List.replicate room 0, done.length⟩

/-- A block of zeros, the pointer at its beginning. -/
def calloc (n : Nat) : Cursor := filled [] n

@[simp] theorem filled_pos (done : Bytes) (room : Nat) : (filled done room).pos = done.length := rfl

theorem filled_mem_zero (done : Bytes) : (filled done 0).mem = done := List.append_nil done

theorem put_filled {done bs : Bytes} {room k : Nat} (h : room = bs.length + k) :
    (filled done room).put bs = (.ok (filled (done ++ bs) k) : Outcome ε Cursor) := by
  subst h
  unfold put filled
  rw [writeBytes_append rfl (by rw [List.length_replicate]; omega), Outcome.ok_bind,
    List.drop_replicate, Nat.add_sub_cancel_left, List.length_append]

theorem puts_filled {done : Bytes} {bss : List Bytes} {room k : Nat}
    (h : room = bss.flatten.length + k) :
    (filled done room).puts bss = (.ok (filled (done ++ bss.flatten) k) : Outcome ε Cursor) := by
  induction bss generalizing done room with
  | nil =>
    rw [List.flatten_nil, List.append_nil, puts, h, List.flatten_nil, List.length_nil, Nat.zero_add]
  | cons bs bss ih =>
    rw [List.flatten_cons, List.length_append, Nat.add_assoc] at h
    rw [puts, put_filled h, Outcome.ok_bind, ih rfl, List.flatten_cons, List.append_assoc]

end Cursor

end Mym
