import DefaultLogic.Sat.Solver

/-!
# Solver sessions

Clauses are added one by one and checked under assumptions, which hold for one check only.
-/

namespace DefaultLogic.Sat

structure Session where
  clauses : List Clause := []
  /-- The number of variables up to the largest seen in a clause or an assumption. -/
  variableCount : Nat := 0
  deriving DecidableEq

namespace Session

def see (s : Session) (ls : List Literal) : Session :=
  { s with variableCount := ls.foldl (fun n l => max n (l.index + 1)) s.variableCount }

def add (s : Session) (c : Clause) : Session :=
  { s.see c.literals with clauses := s.clauses ++ [c] }

def under (s : Session) (assumptions : List Literal) : List Clause :=
  s.clauses ++ assumptions.map .unit

def check (solver : Solver) (s : Session) (assumptions : List Literal) : Verdict :=
  solver (s.under assumptions)

end Session

end DefaultLogic.Sat
