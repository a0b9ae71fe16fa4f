import DefaultLogic.Dataset.Basic
import DefaultLogic.Query.Reply

/-!
# Regression tests

The theories of a dataset are tested against their expectations, and so are their additions, each
on top of the theory it belongs to.  The first expectation that is not met ends the test.
-/

namespace DefaultLogic

structure Tally where
  theories : Nat := 0
  expectations : Nat := 0
  deriving DecidableEq

namespace Tally

def add (a b : Tally) : Tally := ⟨a.theories + b.theories, a.expectations + b.expectations⟩

end Tally

namespace Expectation

def check (d : Dialect) (k : Kind) (t : Theory) : Expectation → Attempt Unit
  | .count n => do
    let found ← t.count Sat.solve k
    if found ≠ n then
      Attempt.fail (.testFailure t.plain
        ("have " ++ toString n ++ " extension(s), found " ++ toString found))
  | .entailment mode positive text => do
    let q : Question := .entailment mode positive
    if (← t.ask k d q (some text)) = .truth false then
      Attempt.fail (.testFailure t.plain (q.name ++ " `" ++ text ++ "'"))

end Expectation

namespace Spec

variable (d : Dialect) (k : Kind)

mutual

/-- Tests the theory that extends `t` as described, then its additions. -/
def check (t : Theory) : Spec → Attempt Tally
  | s@⟨_, _, _, _, _, _, _, additions⟩ => do
    let own ← s.load d
    let t := t.extend own.rules own.facts
    Attempt.log (.testing t.plain)
    s.expectations.forM (Expectation.check d k t)
    let more ← checkEach .addition t 0 additions
    return Tally.add ⟨1, s.expectations.length⟩ more

/-- Tests theories that all extend `t`; a failure says which one it arose in. -/
def checkEach (context : Nat → Context) (t : Theory) (index : Nat) : List Spec → Attempt Tally
  | [] => return {}
  | s :: ss => do
    let tally ← Attempt.within (context index) (check t s)
    let more ← checkEach context t (index + 1) ss
    return tally.add more

end

end Spec

namespace Dataset

def check (s : Dataset) : Attempt Tally := Spec.checkEach s.dialect s.kind .theory {} 0 s.theories

/-! ## Loading -/

def loadSingle (s : Dataset) : Attempt Theory :=
  match s.theories with
  | [spec] => do
    let t ← spec.load s.dialect
    Attempt.log (.loaded t.rules.length t.facts.length)
    return t
  | specs => Attempt.fail (.notASingleTheory specs.length)

inductive Outcome where
  | theory (t : Theory)
  | tested (tally : Tally)
  deriving DecidableEq

def perform (s : Dataset) : Attempt Outcome := do
  Attempt.log (.performing s.action s.theories.length s.kind s.dialect)
  match s.action with
  | .load => .theory <$> s.loadSingle
  | .test => .tested <$> s.check

end Dataset

end DefaultLogic
