import Mathlib.Data.List.Basic

/-!
# Machines of independent parts

The state of a machine is looked at through a view for each of its parts.  What an action asks of a part
may depend on the whole state, but what then becomes of the part depends on its view alone (`Parts`).  So
a run looks at one part like a run of that part (`Parts.view_run`).  Where what is asked does not depend on
the state either, a part sees only its own actions, and the order in which those of different parts are
interleaved makes no difference (`Parts.view_run_congr`).

The lists of actions have the newest first.
-/

namespace Mym

/-- `S` is the state of the whole, `A` its actions, `I` the parts, `V` their views and `C` what can be
asked of a part. -/
structure Parts (S A I V C : Type) where
  start : S
  step : A → S → S
  inv : S → Prop
  view : I → S → V
  asked : S → A → I → Option C
  part : C → V → V
  inv_start : inv start
  inv_step : ∀ a s, inv s → inv (step a s)
  view_step : ∀ a s i, inv s →
    view i (step a s) = (asked s a i).elim (view i s) fun c => part c (view i s)

namespace Parts

variable {S A I V C : Type} (m : Parts S A I V C)

def run : List A → S
  | [] => m.start
  | a :: older => m.step a (run older)

theorem inv_run (as : List A) : m.inv (m.run as) := by
  induction as with
  | nil => exact m.inv_start
  | cons a older ih => exact m.inv_step a _ ih

/-- What a run asks of a part. -/
def commands (i : I) : List A → List C
  | [] => []
  | a :: older => (m.asked (m.run older) a i).toList ++ commands i older

/-- **At one part, a run is a run of that part.** -/
theorem view_run (i : I) (as : List A) :
    m.view i (m.run as) = (m.commands i as).foldr m.part (m.view i m.start) := by
  induction as with
  | nil => rfl
  | cons a older ih =>
    rw [run, commands, m.view_step a _ i (m.inv_run older), List.foldr_append, ih]
    cases m.asked (m.run older) a i with
    | none => rfl
    | some c => rfl

/-- What the action asks of the parts is the same in every state. -/
def Fixed (fixed : A → I → Option C) (a : A) : Prop := ∀ s, m.inv s → ∀ i, m.asked s a i = fixed a i

theorem commands_fixed {fixed : A → I → Option C} {as : List A} (h : ∀ a ∈ as, m.Fixed fixed a)
    (i : I) : m.commands i as = as.filterMap fun a => fixed a i := by
  induction as with
  | nil => rfl
  | cons a older ih =>
    have ha := h a List.mem_cons_self (m.run older) (m.inv_run older) i
    rw [commands, ha, ih fun b hb => h b (List.mem_cons_of_mem a hb), List.filterMap_cons]
    cases fixed a i with
    | none => rfl
    | some c => rfl

/-- **Interleaving does not matter**: two runs that ask the same of a part leave it the same. -/
theorem view_run_congr {fixed : A → I → Option C} {as bs : List A} (ha : ∀ a ∈ as, m.Fixed fixed a)
    (hb : ∀ b ∈ bs, m.Fixed fixed b) {i : I}
    (h : (as.filterMap fun a => fixed a i) = bs.filterMap fun b => fixed b i) :
    m.view i (m.run as) = m.view i (m.run bs) := by
  rw [view_run, view_run, m.commands_fixed ha, m.commands_fixed hb, h]

end Parts

end Mym
