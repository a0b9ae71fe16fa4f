import DefaultLogic.Default.Extension
import DefaultLogic.Theory.Sharing

/-!
# Default theories that share

The ground theory of a default theory is in a memory.  The beliefs that a set of rules is checked
with and the conclusions that are drawn from it start as copies of the ground theory, so they know
the cell of the ground theory, until the first consequent that they get makes it useless to them.
-/

namespace DefaultLogic

open DefaultLogic.Sat

variable {solver : Solver}

/-- A computation that uses a memory, and gives no tokens back. -/
structure InMemory (solver : Solver) (α : Type) where
  run : Memory solver → Logged (α × Memory solver)
  taken_le : ∀ m, m.taken ≤ (run m).value.2.taken

namespace InMemory

@[ext] theorem ext {α : Type} {x y : InMemory solver α} (h : ∀ m, x.run m = y.run m) : x = y := by
  cases x
  cases y
  congr
  exact funext h

instance : Monad (InMemory solver) where
  pure a := ⟨fun m => pure (a, m), fun _ => Nat.le_refl _⟩
  bind x k :=
    { run := fun m => x.run m >>= fun (a, m) => (k a).run m
      taken_le := fun m => Nat.le_trans (x.taken_le m) ((k _).taken_le _) }

instance : LawfulMonad (InMemory solver) := LawfulMonad.mk' (InMemory solver)
  (fun _ => ext fun _ => bind_pure _)
  (fun _ _ => ext fun _ => pure_bind _ _)
  (fun _ _ _ => ext fun _ => bind_assoc _ _ _)

def log (e : Event) : InMemory solver Unit where
  run m := do
    Logged.log e
    pure ((), m)
  taken_le _ := Nat.le_refl _

def create : InMemory solver SharedTheory where
  run m := pure (SharedTheory.create m)
  taken_le _ := Nat.le_succ _

def add (t : SharedTheory) (f : Formula) : InMemory solver SharedTheory where
  run m := pure (t.add f m)
  taken_le _ := Nat.le_succ _

def setInconsistent (names : List String) (t : SharedTheory) : InMemory solver SharedTheory where
  run m := pure (t.setInconsistent names m)
  taken_le m := t.taken_le_setInconsistent names m

def compiledTheory (t : SharedTheory) :
    InMemory solver (ClassicalTheory solver × SharedTheory) where
  run m := do
    let (c, t, m) ← t.compiledTheory m
    pure ((c, t), m)
  taken_le m := Nat.le_of_eq (t.taken_compile m).symm

/-- Asks a theory, which goes on as the question leaves it. -/
def ask (t : SharedTheory)
    (question : ClassicalTheory solver → Logged (Bool × ClassicalTheory solver)) :
    InMemory solver (Bool × SharedTheory) where
  run m := do
    let (b, t, m) ← t.ask question m
    pure ((b, t), m)
  taken_le m := Nat.le_of_eq (t.taken_ask question m).symm

def satisfiable (f? : Option Formula) (t : SharedTheory) : InMemory solver (Bool × SharedTheory) :=
  ask t (GroundLogic.satisfiable (f?.map t.transform))

def entails (f : Formula) (t : SharedTheory) : InMemory solver (Bool × SharedTheory) :=
  ask t (GroundLogic.entails (t.transform f))

instance : MonadLog (InMemory solver) := ⟨log⟩

instance : GroundMonad (InMemory solver) SharedTheory := ⟨add, satisfiable, entails⟩

end InMemory

abbrev SharedVisitor (solver : Solver) (σ : Type) := VisitorIn (InMemory solver) SharedTheory σ

/-- A default theory over a paraconsistent theory that knows where its compiled theory is. -/
abbrev SharedDefaultTheory := DefaultTheory SharedTheory

def SharedDefaultTheory.create : InMemory solver SharedDefaultTheory := do
  let ground ← .create
  pure ⟨[], ground⟩

end DefaultLogic
