import DefaultLogic.Default.Encoding
import DefaultLogic.Default.Extension

/-!
# Paraconsistent extensions

The extensions of a paraconsistent default theory are those of the classical ones in which a minimal
set of atoms may be inconsistent.  Sets of atoms are tried by size, leaving out the supersets of
sets that succeeded.  An extension counts if it is satisfiable and makes each atom of the set both
true and false.
-/

namespace DefaultLogic

structure Report where
  /-- The number of sets of atoms that were tried. -/
  candidates : Nat := 0
  /-- The sets that had extensions, in the order they were found. -/
  minimal : List (List String) := []
  /-- Whether the visitor was done before the end. -/
  stopped : Bool := false
  deriving DecidableEq

namespace Encoding

variable {T σ : Type} [GroundLogic T]

def encode (e : Encoding T) (rules : List Rule) (facts : List Formula) : DefaultTheory T where
  rules := rules.map (Rule.map e.transform)
  ground := GroundLogic.addAll e.empty (facts.map e.transform)

def testers (e : Encoding T) (inconsistent : List String) : List Formula :=
  inconsistent.map fun a => e.transform (inconsistencyTester a)

/-- Passes an extension on to a visitor if it is satisfiable and passes the tests, and notes that
there was one. -/
def accepting (testers : List Formula) (visit : Visitor T σ) : Visitor T (Bool × σ) :=
  fun extension s => do
    let (satisfiable, extension) ← GroundLogic.satisfiable none extension
    if satisfiable then do
      let (inconsistent, extension) ← GroundLogic.entailsAll testers extension
      if inconsistent then do
        match ← visit extension s.2 with
        | .more s => pure (.more (true, s))
        | .done s => pure (.done (true, s))
      else pure (.more s)
    else pure (.more s)

/-- Visits the extensions in which exactly the given atoms may be inconsistent. -/
def searchWith (e : Encoding T) (tracked : List String) (t : DefaultTheory T)
    (inconsistent : List String) (visit : Visitor T σ) (s : σ) : Logged (Progress (Bool × σ)) :=
  { t with ground := e.restrict tracked inconsistent t.ground }.search
    (accepting (e.testers inconsistent) visit) (false, s)

def tryCandidate (e : Encoding T) (tracked : List String) (t : DefaultTheory T)
    (visit : Visitor T σ) (candidate : List String) (r : Report × σ) :
    Logged (Progress (Report × σ)) :=
  if r.1.minimal.any fun m => m.all candidate.contains then pure (.more r)
  else do
    Logged.log (.candidate candidate)
    let progress ← e.searchWith tracked t candidate visit r.2
    let (found, s) := progress.state
    let report : Report :=
      { candidates := r.1.candidates + 1
        minimal := if found then r.1.minimal ++ [candidate] else r.1.minimal
        stopped := progress.isDone }
    if found && candidate.isEmpty then do
      Logged.log .classicalExtensions
      pure (.done (report, s))
    else pure (if report.stopped then .done (report, s) else .more (report, s))

def search (e : Encoding T) (tracked : List String) (t : DefaultTheory T) (visit : Visitor T σ)
    (s : σ) : Logged (Report × σ) :=
  Progress.state <$> Subsets.visitBySize (e.tryCandidate tracked t visit) tracked ({}, s)

end Encoding

end DefaultLogic
