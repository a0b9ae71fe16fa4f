import DefaultLogic.Formula.Semantics
import DefaultLogic.Rule

/-!
# Reiter's definition

An extension of rules and facts is a set of beliefs that equals the least deductively closed set
with the facts and with the consequent of every rule whose prerequisite is in it, where the
justification of the rule is judged by the extension itself.
-/

namespace DefaultLogic

abbrev Beliefs := Formula → Prop

namespace Beliefs

def ofList (fs : List Formula) : Beliefs := (· ∈ fs)

def HoldIn (B : Beliefs) (v : Valuation) : Prop := ∀ g, B g → g.eval v = true

def Entails (B : Beliefs) (f : Formula) : Prop := ∀ v, B.HoldIn v → f.eval v = true

def ConsistentWith (B : Beliefs) (f : Formula) : Prop := ∃ v, B.HoldIn v ∧ f.eval v = true

def closure (B : Beliefs) : Beliefs := B.Entails

def IsClosed (B : Beliefs) : Prop := ∀ f, B.Entails f → B f

end Beliefs

variable (rules : List Rule) (facts : List Formula)

/-- What the rules and facts ask of a set of conclusions when justifications are judged by the
beliefs `E`. -/
structure IsSaturated (E B : Beliefs) : Prop where
  facts : ∀ f ∈ facts, B f
  closed : B.IsClosed
  rules : ∀ r ∈ rules, B r.prerequisite → E.ConsistentWith r.justification → B r.consequent

/-- The least saturated set. -/
def conclusions (E : Beliefs) : Beliefs := fun f => ∀ B, IsSaturated rules facts E B → B f

def IsExtension (E : Beliefs) : Prop := ∀ f, E f ↔ conclusions rules facts E f

/-- The rules that apply in a set of beliefs, by index. -/
def IsGenerating (E : Beliefs) (i : Nat) : Prop :=
  ∃ r, rules[i]? = some r ∧ E r.prerequisite ∧ E.ConsistentWith r.justification

end DefaultLogic
