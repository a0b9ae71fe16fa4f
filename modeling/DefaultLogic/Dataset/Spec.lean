import DefaultLogic.Attempt
import DefaultLogic.Default.Theory

/-!
# Theories of a dataset

A dataset describes a theory by the texts of its rules and facts, together with what is expected of
it.  Additions describe larger theories with expectations of their own.
-/

namespace DefaultLogic

structure Spec where
  rules : List String := []
  facts : List String := []
  /-- The expected number of extensions. -/
  count? : Option Nat := none
  credulous : List String := []
  skeptical : List String := []
  notCredulous : List String := []
  notSkeptical : List String := []
  additions : List Spec := []

inductive Expectation where
  | count (n : Nat)
  | entailment (mode : Mode) (positive : Bool) (formula : String)
  deriving DecidableEq

namespace Spec

instance : Inhabited Spec := ⟨{}⟩

/-- What is expected of the theory itself, in the order in which it is tested. -/
def expectations (s : Spec) : List Expectation :=
  s.count?.toList.map .count ++
    s.credulous.map (.entailment .credulous true) ++
    s.skeptical.map (.entailment .skeptical true) ++
    s.notCredulous.map (.entailment .credulous false) ++
    s.notSkeptical.map (.entailment .skeptical false)

/-! ## Loading -/

/-- Reads texts one after the other; a failure says which one it arose in. -/
def readEach {α : Type} (read : String → Except Failure α) (context : Nat → Context)
    (texts : List String) : Except Failure (List α) :=
  texts.zipIdx.mapM fun (text, i) => (read text).mapError (Failure.within (context i))

def load (d : Dialect) (s : Spec) : Except Failure Theory := do
  let rules ← readEach d.readRule .rule s.rules
  let facts ← readEach d.readFormula .fact s.facts
  return .ofContent rules facts

end Spec

end DefaultLogic
