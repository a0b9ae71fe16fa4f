import DefaultLogic.Failure
import DefaultLogic.Log

/-!
# Attempts

Computations that log and may fail.  What was logged before a failure is kept.
-/

namespace DefaultLogic

abbrev Attempt := ExceptT Failure Logged

namespace Attempt

variable {α : Type}

def log (e : Event) : Attempt Unit := ExceptT.lift (Logged.log e)

def fail (cause : Cause) : Attempt α := throw (.ofCause cause)

def within (context : Context) (x : Attempt α) : Attempt α :=
  ExceptT.mk (Except.mapError (Failure.within context) <$> x.run)

@[simp] theorem run_within (context : Context) (x : Attempt α) :
    (within context x).run = Except.mapError (Failure.within context) <$> x.run := rfl

/-! ## Values -/

theorem value_log (e : Event) : (log e).run.value = .ok () := rfl

theorem value_bind {β : Type} (x : Attempt α) (f : α → Attempt β) :
    (x >>= f).run.value = x.run.value >>= fun a => (f a).run.value := by
  show (ExceptT.bindCont f x.run.value).value = _
  cases x.run.value <;> rfl

theorem value_within (context : Context) (x : Attempt α) :
    (within context x).run.value = x.run.value.mapError (Failure.within context) := by
  rw [run_within, Logged.value_map]

end Attempt

end DefaultLogic
