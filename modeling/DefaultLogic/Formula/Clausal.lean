import DefaultLogic.Formula.Basic

/-!
# Clausal form

A formula is a conjunction of clauses, each a list of signed atom names.  Disjunction distributes
over conjunction and no atom is added, so the clauses of a formula have the meaning of the formula.
-/

namespace DefaultLogic

abbrev SignedAtom := String × Bool

def appendEach (cs ds : List (List SignedAtom)) : List (List SignedAtom) :=
  cs.flatMap fun c => ds.map (c ++ ·)

/-- The disjunction of several lists of clauses: one clause of each, in lexicographic order. -/
def disjoin (css : List (List (List SignedAtom))) : List (List SignedAtom) :=
  css.foldr appendEach [[]]

def Junction.clauses : Junction → List (List (List SignedAtom)) → List (List SignedAtom)
  | .and, css => css.flatten
  | .or, css => disjoin css

namespace Formula

mutual

/-- The clauses of a formula, or of its negation when `positive` is false. -/
def signedClauses (positive : Bool) : Formula → List (List SignedAtom)
  | .atom name => [[(name, positive)]]
  | .not f => f.signedClauses !positive
  | .junction j fs =>
    (if positive then j else j.dual).clauses (signedClausesEach positive fs)
  | .arrow .equivalence l r =>
    if positive then
      disjoin [l.signedClauses false, r.signedClauses true] ++
        disjoin [r.signedClauses false, l.signedClauses true]
    else
      disjoin [l.signedClauses true ++ r.signedClauses false,
        r.signedClauses true ++ l.signedClauses false]
  | .arrow _ l r =>
    (if positive then Junction.or else .and).clauses
      [l.signedClauses !positive, r.signedClauses positive]

private def signedClausesEach (positive : Bool) : List Formula → List (List (List SignedAtom))
  | [] => []
  | f :: fs => f.signedClauses positive :: signedClausesEach positive fs

end

private theorem signedClausesEach_eq_map (positive : Bool) (fs : List Formula) :
    signedClausesEach positive fs = fs.map (signedClauses positive) := by
  induction fs with
  | nil => rfl
  | cons f fs ih => simp [signedClausesEach, ih]

@[simp] theorem signedClauses_junction (positive : Bool) (j : Junction) (fs : List Formula) :
    (junction j fs).signedClauses positive =
      (if positive then j else j.dual).clauses (fs.map (signedClauses positive)) := by
  simp [signedClauses, signedClausesEach_eq_map]

def clauses : Formula → List (List SignedAtom) := signedClauses true

/-- The conjunctive normal form, a conjunction of disjunctions of literals. -/
def cnf (f : Formula) : Formula :=
  .and (f.clauses.map fun c => .or (c.map fun (name, positive) => literal name positive))

end Formula

end DefaultLogic
