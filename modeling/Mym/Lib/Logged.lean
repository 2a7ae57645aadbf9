import Mym.Lib.Outcome

/-!
# Computations that leave a log

`Logged` is an outcome with the events that have happened on the way to it, the oldest first.  An event
stays in the log whatever the computation ends in, so that a log also tells what has been done when an
error is raised.
-/

namespace Mym

structure Logged (ω ε α : Type) where
  log : List ω
  out : Outcome ε α

namespace Logged

variable {ω ε α β : Type}

/-- No event, and the given outcome. -/
def lift (x : Outcome ε α) : Logged ω ε α := ⟨[], x⟩

/-- An event. -/
def emit (e : ω) : Logged ω ε Unit := ⟨[e], .ok ()⟩

protected def bind (x : Logged ω ε α) (f : α → Logged ω ε β) : Logged ω ε β :=
  match x.out with
  | .ok a => ⟨x.log ++ (f a).log, (f a).out⟩
  | .raised e => ⟨x.log, .raised e⟩
  | .outside => ⟨x.log, .outside⟩
  | .undefined => ⟨x.log, .undefined⟩
  | .diverged => ⟨x.log, .diverged⟩

instance : Monad (Logged ω ε) where
  pure a := lift (.ok a)
  bind := Logged.bind

/-- After an event the rest goes on. -/
theorem emit_bind (e : ω) (f : Unit → Logged ω ε β) :
    (emit e >>= f) = ⟨e :: (f ()).log, (f ()).out⟩ := rfl

theorem lift_ok_bind (a : α) (f : α → Logged ω ε β) : (lift (.ok a) >>= f) = f a := rfl

/-- What does not return is the end, with no event. -/
theorem lift_bind_of_stop {x : Outcome ε α} {b : Outcome.Stop ε} (hx : x.stop = some b)
    (f : α → Logged ω ε β) :
    (lift x >>= f).log = [] ∧ (lift x >>= f).out.stop = some b := by
  cases x with
  | ok a => cases hx
  | raised e => exact ⟨rfl, hx⟩
  | outside => exact ⟨rfl, hx⟩
  | undefined => exact ⟨rfl, hx⟩
  | diverged => exact ⟨rfl, hx⟩

/-- What a computation comes to does not depend on its events. -/
theorem out_bind (x : Logged ω ε α) (f : α → Logged ω ε β) :
    (x >>= f).out = x.out >>= fun a => (f a).out := by
  show (Logged.bind x f).out = _
  unfold Logged.bind
  cases x.out with
  | ok a => rfl
  | raised e => rfl
  | outside => rfl
  | undefined => rfl
  | diverged => rfl

/-! ### Events that are pieces of one list -/

/-- The computation returns `a`, and its events make up `t`. -/
structure Prints (x : Logged (List ω) ε α) (t : List ω) (a : α) : Prop where
  out : x.out = .ok a
  text : x.log.flatten = t

theorem prints_pure (a : α) : Prints (pure a : Logged (List ω) ε α) [] a := ⟨rfl, rfl⟩

theorem prints_lift {x : Outcome ε α} {a : α} (h : x = .ok a) :
    Prints (lift x : Logged (List ω) ε α) [] a := ⟨h, rfl⟩

theorem prints_emit (t : List ω) : Prints (emit t : Logged (List ω) ε Unit) t () :=
  ⟨rfl, List.flatten_singleton⟩

theorem Prints.bind {x : Logged (List ω) ε α} {f : α → Logged (List ω) ε β} {t u : List ω} {a : α}
    {b : β} (hx : x.Prints t a) (hf : (f a).Prints u b) : (x >>= f).Prints (t ++ u) b := by
  show (Logged.bind x f).Prints (t ++ u) b
  unfold Logged.bind
  rw [hx.out]
  refine ⟨hf.out, ?_⟩
  show (x.log ++ (f a).log).flatten = t ++ u
  rw [List.flatten_append, hx.text, hf.text]

end Logged

end Mym
