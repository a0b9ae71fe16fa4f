import DefaultLogic.Theory.Paraconsistent

/-!
# Shared compiled theories

A copy of a paraconsistent theory shares the compiled theory of its original.  Both know the
address of one cell, and a query of either puts its clauses into the theory in the cell for the time
of the query.  Whether a cell is still good is told by tokens: every change of a theory takes a new
one, and a cell keeps the token that its theory had when it was compiled.
-/

namespace DefaultLogic

open DefaultLogic.Sat

/-- A token for a state of a theory. -/
structure Generation where
  token : UInt64
  deriving DecidableEq

namespace Generation

/-- The tokens count up from zero, in 64 bits. -/
def ofNat (n : Nat) : Generation := ⟨UInt64.ofNat n⟩

end Generation

structure Cell (solver : Solver) where
  generation : Generation
  theory : ClassicalTheory solver

/-- How many tokens were taken, and the cells that were filled. -/
structure Memory (solver : Solver) where
  taken : Nat := 0
  cells : List (Cell solver) := []

namespace Memory

variable {solver : Solver}

def next (m : Memory solver) : Generation := .ofNat m.taken

def advance (m : Memory solver) : Memory solver := { m with taken := m.taken + 1 }

/-- Fills a new cell, whose address is the number of cells before. -/
def fill (m : Memory solver) (cell : Cell solver) : Memory solver :=
  { m with cells := m.cells ++ [cell] }

def put (m : Memory solver) (address : Nat) (t : ClassicalTheory solver) : Memory solver :=
  { m with cells := m.cells.modify address fun cell => { cell with theory := t } }

end Memory

/-- A paraconsistent theory that knows where its compiled theory is. -/
structure SharedTheory where
  formulas : List Formula := []
  /-- In order and without repetitions. -/
  inconsistent : List String := []
  transformer : NegationStyle := .paraconsistent []
  generation : Generation
  address? : Option Nat := none

namespace SharedTheory

variable {solver : Solver}

def create (m : Memory solver) : SharedTheory × Memory solver :=
  ({ generation := m.next }, m.advance)

def add (f : Formula) (t : SharedTheory) (m : Memory solver) : SharedTheory × Memory solver :=
  ({ t with formulas := t.formulas ++ [f], generation := m.next }, m.advance)

/-- Declares the inconsistent atoms anew, which is a change only if they differ. -/
def setInconsistent (names : List String) (t : SharedTheory) (m : Memory solver) :
    SharedTheory × Memory solver :=
  if sortedNames names = t.inconsistent then (t, m)
  else
    ({ t with
        inconsistent := sortedNames names
        transformer := .paraconsistent (sortedNames names)
        generation := m.next },
      m.advance)

theorem taken_le_setInconsistent (names : List String) (t : SharedTheory) (m : Memory solver) :
    m.taken ≤ (t.setInconsistent names m).2.taken := by
  rw [setInconsistent]
  split
  · exact Nat.le_refl _
  · exact Nat.le_succ _

def transform (t : SharedTheory) (f : Formula) : Formula := f.push t.transformer true

/-- The cell of the theory and what is in it, if it has the token that the theory has. -/
def cell? (t : SharedTheory) (m : Memory solver) : Option (Nat × ClassicalTheory solver) := do
  let address ← t.address?
  let cell ← m.cells[address]?
  if cell.generation = t.generation then some (address, cell.theory) else none

def compile (t : SharedTheory) (m : Memory solver) :
    Logged ((Nat × ClassicalTheory solver) × SharedTheory × Memory solver) :=
  match t.cell? m with
  | some found => pure (found, t, m)
  | none => do
    Logged.log (.compiling t.formulas.length t.inconsistent)
    let c := ClassicalTheory.ofFormulas (t.formulas.map t.transform)
    let address := m.cells.length
    pure ((address, c), { t with address? := some address }, m.fill ⟨t.generation, c⟩)

def compiledTheory (t : SharedTheory) (m : Memory solver) :
    Logged (ClassicalTheory solver × SharedTheory × Memory solver) := do
  let ((_, c), t, m) ← t.compile m
  pure (c, t, m)

/-- Asks the compiled theory, which is in its cell as the question leaves it. -/
def ask (question : ClassicalTheory solver → Logged (Bool × ClassicalTheory solver))
    (t : SharedTheory) (m : Memory solver) : Logged (Bool × SharedTheory × Memory solver) := do
  let ((address, c), t, m) ← t.compile m
  let (b, c) ← question c
  pure (b, t, m.put address c)

theorem taken_compile (t : SharedTheory) (m : Memory solver) :
    (t.compile m).value.2.2.taken = m.taken := by
  rw [compile]
  split <;> rfl

theorem taken_ask (question : ClassicalTheory solver → Logged (Bool × ClassicalTheory solver))
    (t : SharedTheory) (m : Memory solver) : (t.ask question m).value.2.2.taken = m.taken :=
  taken_compile t m

def satisfiable (f? : Option Formula) (t : SharedTheory) (m : Memory solver) :
    Logged (Bool × SharedTheory × Memory solver) :=
  t.ask (GroundLogic.satisfiable (f?.map t.transform)) m

def entails (f : Formula) (t : SharedTheory) (m : Memory solver) :
    Logged (Bool × SharedTheory × Memory solver) :=
  t.ask (GroundLogic.entails (t.transform f)) m

end SharedTheory

end DefaultLogic
