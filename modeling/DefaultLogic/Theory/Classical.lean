import DefaultLogic.Sat.Numbering
import DefaultLogic.Sat.Solver
import DefaultLogic.Theory.Ground

/-!
# Classical theories

A theory keeps its formulas, the numbers of their atoms and their clauses.  The clauses of a query
are added to those of the theory, the atoms that the theory has never seen getting the next
numbers; once the query is answered, both are cut off again.
-/

namespace DefaultLogic

open DefaultLogic.Sat

/-- A classical theory whose satisfiability a given solver decides. -/
structure ClassicalTheory (solver : Solver) where
  formulas : List Formula := []
  atoms : Numbering := {}
  clauses : List Clause := []
  deriving DecidableEq

namespace ClassicalTheory

variable {solver : Solver}

/-- Adds the clauses of a formula, numbering the atoms that have no number yet. -/
def addClauses (t : ClassicalTheory solver) (f : Formula) : ClassicalTheory solver :=
  let (atoms, clauses) := t.atoms.clauses f.clauses
  { t with atoms := atoms, clauses := t.clauses ++ clauses }

/-- Adds a formula.  Its atoms are numbered in order of occurrence, those of its tautological
clauses included. -/
def add (t : ClassicalTheory solver) (f : Formula) : ClassicalTheory solver :=
  addClauses ⟨t.formulas ++ [f], t.atoms.insertAll f.atoms, t.clauses⟩ f

def ofFormulas (fs : List Formula) : ClassicalTheory solver := fs.foldl add {}

/-- The theory as a query is checked, with the clauses of the formula that is asked about. -/
def during (t : ClassicalTheory solver) : Option Formula → ClassicalTheory solver
  | none => t
  | some f => t.addClauses f

def cut (t : ClassicalTheory solver) (clauseCount atomCount : Nat) : ClassicalTheory solver :=
  { t with atoms := t.atoms.truncate atomCount, clauses := t.clauses.take clauseCount }

def after (t : ClassicalTheory solver) : Option Formula → ClassicalTheory solver
  | none => t
  | some f => (t.during (some f)).cut t.clauses.length t.atoms.size

def check (t : ClassicalTheory solver) (f? : Option Formula) : Verdict :=
  solver (t.during f?).clauses

/-- A theory counts as unsatisfiable when the solver does not answer. -/
def satisfiable (t : ClassicalTheory solver) (f? : Option Formula) : Logged Bool :=
  match t.check f? with
  | .sat _ => pure true
  | .unsat => pure false
  | .unknown => do
    Logged.log .noReply
    pure false

def entails (t : ClassicalTheory solver) (f : Formula) : Logged Bool :=
  not <$> t.satisfiable (some (.not f))

/-- The truth values of the atoms in a model, in the order of their numbers. -/
def model (t : ClassicalTheory solver) : Option (List (String × Bool)) :=
  match t.check none with
  | .sat ls => some (ls.filterMap fun l => (t.atoms.name? l.index).map (·, l.positive))
  | _ => none

instance : GroundLogic (ClassicalTheory solver) where
  add := add
  formulas := formulas
  satisfiable f? t := return (← t.satisfiable f?, t.after f?)
  entails f t := return (← t.entails f, t.after (some (.not f)))

end ClassicalTheory

end DefaultLogic
