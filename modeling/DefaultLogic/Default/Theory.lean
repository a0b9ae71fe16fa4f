import DefaultLogic.Default.Kind
import DefaultLogic.Default.Paraconsistent

/-!
# Default theories

A default theory is a list of rules and a list of facts, which a kind of default logic interprets
with a solver at hand.  The atoms are tracked in the order in which rules and facts brought them.
-/

namespace DefaultLogic

open DefaultLogic.Sat

structure Theory where
  rules : List Rule := []
  facts : List Formula := []
  atoms : List String := []
  deriving DecidableEq, Inhabited

namespace Theory

def track (t : Theory) (names : List String) : Theory :=
  { t with atoms := names.foldl (fun as a => if a ∈ as then as else as ++ [a]) t.atoms }

def addRule (t : Theory) (r : Rule) : Theory :=
  { t.track r.occurrences with rules := t.rules ++ [r] }

def addFact (t : Theory) (f : Formula) : Theory :=
  { t.track f.occurrences with facts := t.facts ++ [f] }

def extend (t : Theory) (rules : List Rule) (facts : List Formula) : Theory :=
  facts.foldl addFact (rules.foldl addRule t)

def ofContent (rules : List Rule) (facts : List Formula) : Theory := extend {} rules facts

def plain (t : Theory) : String := plainTheory t.rules t.facts

def markup (t : Theory) : String := markupTheory t.rules t.facts

/-! ## Reasoning -/

def classical (solver : Solver) (t : Theory) : DefaultTheory (ClassicalTheory solver) :=
  ⟨t.rules, GroundLogic.addAll {} t.facts⟩

section

variable {T σ : Type} [GroundLogic T] (e : Encoding T)

def searchReport (t : Theory) (visit : Visitor T σ) (s : σ) : Logged (Report × σ) :=
  e.search t.atoms (e.encode t.rules t.facts) visit s

def entailsUnder (t : Theory) (mode : Mode) (f : Formula) : Logged Bool := do
  let encoded := e.encode t.rules t.facts
  let prepared := { encoded with ground := e.prepare t.atoms f encoded.ground }
  let (_, b) ← e.search t.atoms prepared (Visitor.entailment (e.transform f) mode)
    (Visitor.initial mode)
  pure b

end

variable (solver : Solver)

def extensions (t : Theory) : Kind → Logged (List (List Formula))
  | .classical => Progress.state <$> (t.classical solver).search Visitor.collect []
  | .native => Prod.snd <$> t.searchReport (.native solver) Visitor.collect []
  | .renamed => Prod.snd <$> t.searchReport (.renamed solver) Visitor.collect []

def count (t : Theory) (k : Kind) : Logged Nat := List.length <$> t.extensions solver k

/-- A paraconsistent theory always counts as having an extension, since any facts are satisfiable
once all their atoms may be inconsistent. -/
def hasExtension (t : Theory) : Kind → Logged Bool
  | .classical => Progress.state <$> (t.classical solver).search Visitor.exists? false
  | .native | .renamed => pure true

/-- Whether some extension (credulously) or every extension (skeptically) entails a formula. -/
def entails (t : Theory) (mode : Mode) (f : Formula) : Kind → Logged Bool
  | .classical =>
    Progress.state <$>
      (t.classical solver).search (Visitor.entailment f mode) (Visitor.initial mode)
  | .native => t.entailsUnder (.native solver) mode f
  | .renamed => t.entailsUnder (.renamed solver) mode f

end Theory

end DefaultLogic
