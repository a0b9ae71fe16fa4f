import DefaultLogic.Formula.Basic

/-!
# Negation normal forms

Negations are pushed down to the atoms and material implications are written as disjunctions.  The
classical form keeps internal implications.  A paraconsistent form writes them as disjunctions whose
negation stays where it is, and gives every atom of a set a second name for its negation, so that
the atom and its negation no longer exclude each other.
-/

namespace DefaultLogic

/-- The atom that stands for the negation of an inconsistent atom. -/
def negatedName (name : String) : String := name ++ "^-"

/-- What a normal form does with internal implications and with negated atoms. -/
structure NegationStyle where
  keepsInternal : Bool
  renames : String → Bool

namespace NegationStyle

def classical : NegationStyle := ⟨true, fun _ => false⟩

def paraconsistent (inconsistent : List String) : NegationStyle := ⟨false, inconsistent.contains⟩

def full : NegationStyle := ⟨false, fun _ => true⟩

/-- A literal, the negation of a renamed atom being an atom of its own. -/
def literal (s : NegationStyle) (name : String) (positive : Bool) : Formula :=
  if positive then .atom name
  else if s.renames name then .atom (negatedName name)
  else .not (.atom name)

end NegationStyle

namespace Formula

mutual

/-- The normal form of a formula, or of its negation when `positive` is false. -/
def push (s : NegationStyle) (positive : Bool) : Formula → Formula
  | .atom name => s.literal name positive
  | .not f => f.push s !positive
  | .junction j fs => .junction (if positive then j else j.dual) (pushEach s positive fs)
  | .arrow .material l r =>
    .junction (if positive then .or else .and) [l.push s !positive, r.push s positive]
  | .arrow .internal l r =>
    if !positive then .and [l.push s true, r.push s false]
    else if s.keepsInternal then .implication (l.push s true) (r.push s true)
    else .or [.not (l.push s true), r.push s true]
  | .arrow .equivalence l r => .equiv (l.push s true) (r.push s positive)

private def pushEach (s : NegationStyle) (positive : Bool) : List Formula → List Formula
  | [] => []
  | f :: fs => f.push s positive :: pushEach s positive fs

end

private theorem pushEach_eq_map (s : NegationStyle) (positive : Bool) (fs : List Formula) :
    pushEach s positive fs = fs.map (push s positive) := by
  induction fs with
  | nil => rfl
  | cons f fs ih => simp [pushEach, ih]

@[simp] theorem push_junction (s : NegationStyle) (positive : Bool) (j : Junction)
    (fs : List Formula) :
    (junction j fs).push s positive =
      .junction (if positive then j else j.dual) (fs.map (push s positive)) := by
  simp [push, pushEach_eq_map]

def nnf : Formula → Formula := push .classical true

def pnnf (inconsistent : List String) : Formula → Formula :=
  push (.paraconsistent inconsistent) true

def fullPnnf : Formula → Formula := push .full true

end Formula

end DefaultLogic
