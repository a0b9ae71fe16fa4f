import DefaultLogic.Theory.Paraconsistent

/-!
# Encodings of inconsistency

A paraconsistent default theory is searched through a default theory over some ground logic.  The
native encoding leaves formulas as they are and tells a paraconsistent theory which atoms may be
inconsistent.  The renaming encoding writes all negated atoms as atoms of their own, in a classical
theory, and asserts of the other atoms that they are classical.
-/

namespace DefaultLogic

open DefaultLogic.Sat

/-- States that an atom is both true and false if it is either: `((a | !a) =) (a & !a))`. -/
def inconsistencyTester (name : String) : Formula :=
  let a := Formula.atom name
  .implication (.or [a, .not a]) (.and [a, .not a])

/-- States that an atom excludes its negation: `(a <-> !a^-)`. -/
def classicalAssertion (name : String) : Formula :=
  .equiv (Formula.atom name).fullPnnf (.not (Formula.not (.atom name)).fullPnnf)

/-- How a paraconsistent default theory is put into a ground logic. -/
structure Encoding (T : Type) where
  name : String
  empty : T
  /-- How formulas are written in the ground logic. -/
  transform : Formula → Formula
  /-- Lets only the given atoms, out of the tracked ones, be inconsistent. -/
  restrict (tracked inconsistent : List String) : T → T
  /-- Prepares for a query, which may have atoms that are not tracked. -/
  prepare (tracked : List String) (query : Formula) : T → T

namespace Encoding

variable (solver : Solver)

def native : Encoding (ParaconsistentTheory solver) where
  name := "spdl1"
  empty := {}
  transform := id
  restrict _ inconsistent t := t.setInconsistent inconsistent
  prepare _ _ := id

def renamed : Encoding (ClassicalTheory solver) where
  name := "spdl2"
  empty := {}
  transform := Formula.fullPnnf
  restrict tracked inconsistent t :=
    GroundLogic.addAll t ((tracked.filter (· ∉ inconsistent)).map classicalAssertion)
  prepare tracked query t :=
    GroundLogic.addAll t ((query.atoms.filter (· ∉ tracked)).map classicalAssertion)

end Encoding

end DefaultLogic
