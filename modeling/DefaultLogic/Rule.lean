import DefaultLogic.Formula.Basic

/-!
# Default rules

A default rule lets one conclude its consequent once its prerequisite is known, as long as its
justification is consistent with what is believed.
-/

namespace DefaultLogic

structure Rule where
  prerequisite : Formula
  justification : Formula
  consequent : Formula
  deriving DecidableEq, Inhabited

namespace Rule

def map (m : Formula → Formula) (r : Rule) : Rule :=
  ⟨m r.prerequisite, m r.justification, m r.consequent⟩

def occurrences (r : Rule) : List String :=
  r.prerequisite.occurrences ++ r.justification.occurrences ++ r.consequent.occurrences

/-- A normal rule is justified by its own consequent. -/
def isNormal (r : Rule) : Bool := r.justification = r.consequent

end Rule

end DefaultLogic
