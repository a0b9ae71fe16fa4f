import DefaultLogic.Formula.NormalForm
import DefaultLogic.Theory.Classical

/-!
# Paraconsistent theories

Some atoms are declared inconsistent: such an atom and its negation may hold together.  Queries go
to the classical theory of the paraconsistent normal forms.  It is compiled when it is first needed
and kept until the formulas or the inconsistent atoms change.
-/

namespace DefaultLogic

open DefaultLogic.Sat

structure ParaconsistentTheory (solver : Solver) where
  formulas : List Formula := []
  /-- In order and without repetitions. -/
  inconsistent : List String := []
  compiled? : Option (ClassicalTheory solver) := none
  deriving DecidableEq

/-- Names in order, each once. -/
def sortedNames (names : List String) : List String :=
  (names.mergeSort fun a b => a ≤ b).eraseReps

namespace ParaconsistentTheory

variable {solver : Solver}

def add (t : ParaconsistentTheory solver) (f : Formula) : ParaconsistentTheory solver :=
  { t with formulas := t.formulas ++ [f], compiled? := none }

/-- Declares the inconsistent atoms anew.  The compiled theory is kept if they are the same. -/
def setInconsistent (t : ParaconsistentTheory solver) (names : List String) :
    ParaconsistentTheory solver :=
  if sortedNames names = t.inconsistent then t
  else { t with inconsistent := sortedNames names, compiled? := none }

def classical (t : ParaconsistentTheory solver) : ClassicalTheory solver :=
  .ofFormulas (t.formulas.map (·.pnnf t.inconsistent))

def compile (t : ParaconsistentTheory solver) :
    Logged (ClassicalTheory solver × ParaconsistentTheory solver) :=
  match t.compiled? with
  | some c => pure (c, t)
  | none => do
    Logged.log (.compiling t.formulas.length t.inconsistent)
    pure (t.classical, { t with compiled? := some t.classical })

def satisfiable (f? : Option Formula) (t : ParaconsistentTheory solver) :
    Logged (Bool × ParaconsistentTheory solver) := do
  let (c, t) ← t.compile
  let (b, c) ← GroundLogic.satisfiable (f?.map (·.pnnf t.inconsistent)) c
  pure (b, { t with compiled? := some c })

def entails (f : Formula) (t : ParaconsistentTheory solver) :
    Logged (Bool × ParaconsistentTheory solver) := do
  let (c, t) ← t.compile
  let (b, c) ← GroundLogic.entails (f.pnnf t.inconsistent) c
  pure (b, { t with compiled? := some c })

instance : GroundLogic (ParaconsistentTheory solver) where
  add := add
  formulas := formulas
  satisfiable := satisfiable
  entails := entails

end ParaconsistentTheory

end DefaultLogic
