import DefaultLogic.Sat.Semantics

/-!
# Outcomes

What a search may come back with: an assignment that satisfies the clauses, the proof that there is
none, or nothing.
-/

namespace DefaultLogic.Sat

inductive Outcome (cs : List Clause) where
  | satisfied (a : Assignment) (holds : ∀ c ∈ cs, c.holds a = true)
  | refuted (proof : ¬Satisfiable cs)
  | undecided

namespace Outcome

variable {cs : List Clause}

def ofAssignment (cs : List Clause) (a : Assignment) : Outcome cs :=
  if h : ∀ c ∈ cs, c.holds a = true then .satisfied a h else .undecided

/-- The first outcome, unless it decides nothing. -/
def orElse (o : Outcome cs) (next : Unit → Outcome cs) : Outcome cs :=
  match o with
  | .undecided => next ()
  | o => o

end Outcome

end DefaultLogic.Sat
