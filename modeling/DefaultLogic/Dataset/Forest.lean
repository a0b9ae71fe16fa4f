import DefaultLogic.Dataset.Basic

/-!
# Forests of tests

The theories of a dataset and their additions make up a forest.  A node of it stands for the theory
told by the specs on the way to it, from a root on, and by no other spec.  A node is checked by
reading its own texts and by testing what is expected of its theory.
-/

namespace DefaultLogic

namespace Spec

/-- The rules of a spec, as far as they can be read. -/
def rulesIn (d : Dialect) (s : Spec) : List Rule :=
  s.rules.filterMap fun text => (d.readRule text).toOption

def factsIn (d : Dialect) (s : Spec) : List Formula :=
  s.facts.filterMap fun text => (d.readFormula text).toOption

end Spec

/-! ## Checks -/

inductive Check where
  | rule (index : Nat) (text : String)
  | fact (index : Nat) (text : String)
  | expectation (e : Expectation)
  deriving DecidableEq

def Spec.textChecks (s : Spec) : List Check :=
  s.rules.zipIdx.map (fun (text, i) => .rule i text) ++
    s.facts.zipIdx.map fun (text, i) => .fact i text

def Spec.checks (s : Spec) : List Check := s.textChecks ++ s.expectations.map .expectation

namespace Check

variable (d : Dialect) (k : Kind) (t : Theory)

/-- Whether a theory passes a check: texts can be read as what they are meant to be, and
expectations hold. -/
def Passes : Check → Prop
  | .rule _ text => ∃ r, d.parse text = .ok (.rule r)
  | .fact _ text => ∃ f, d.parse text = .ok (.formula f)
  | .expectation (.count n) => (t.extensions Sat.solve k).value.length = n
  | .expectation (.entailment mode positive text) =>
    ∃ f, d.parse text = .ok (.formula f) ∧ (t.entails Sat.solve mode f k).value = positive

def textFailure? (text : String) : Option Failure :=
  match d.parse text with
  | .ok (.formula _) => none
  | .ok (.rule _) => some ⟨[], .expectedFormula text⟩
  | .error e => some ⟨[.parsing text d], .unreadable e⟩

def failure? : Check → Option Failure
  | .rule i text =>
    match d.parse text with
    | .ok (.rule _) => none
    | .ok (.formula _) => some ⟨[.rule i], .expectedRule text⟩
    | .error e => some ⟨[.rule i, .parsing text d], .unreadable e⟩
  | .fact i text => (textFailure? d text).map (Failure.within (.fact i))
  | .expectation (.count n) =>
    let found := (t.extensions Sat.solve k).value.length
    if found = n then none
    else some ⟨[], .testFailure t.plain
      ("have " ++ toString n ++ " extension(s), found " ++ toString found)⟩
  | .expectation (.entailment mode positive text) =>
    match d.parse text with
    | .ok (.formula f) =>
      if (t.entails Sat.solve mode f k).value = positive then none
      else some ⟨[], .testFailure t.plain
        ((Question.entailment mode positive).name ++ " `" ++ text ++ "'")⟩
    | _ => textFailure? d text

end Check

/-! ## Nodes -/

/-- Puts a failure in further contexts, the outermost first. -/
def Failure.withinAll (contexts : List Context) (f : Failure) : Failure :=
  { f with contexts := contexts ++ f.contexts }

structure Node where
  /-- The indices that lead to it from the roots. -/
  path : List Nat
  /-- The specs that it is an addition to, from the root on. -/
  above : List Spec
  spec : Spec

namespace Node

/-- The node of an addition, seen from further above. -/
def under (index : Nat) (s : Spec) (n : Node) : Node :=
  { n with path := index :: n.path, above := s :: n.above }

inductive LiesIn : List Spec → Node → Prop
  | root {forest index s} (hs : forest[index]? = some s) : LiesIn forest ⟨[index], [], s⟩
  | addition {forest index s n} (hs : forest[index]? = some s) (hn : LiesIn s.additions n) :
      LiesIn forest (n.under index s)

/-- The specs on the way to a node, its own being the last. -/
def specs (n : Node) : List Spec := n.above ++ [n.spec]

/-- The theory of all the rules and facts on the way to a node. -/
def theory (d : Dialect) (n : Node) : Theory :=
  .ofContent (n.specs.flatMap (Spec.rulesIn d)) (n.specs.flatMap (Spec.factsIn d))

def contexts (root : Nat → Context) : List Nat → List Context
  | [] => []
  | index :: indices => root index :: indices.map .addition

end Node

namespace Spec

mutual

/-- The nodes of a spec with an index and of its additions: parents come before children, and
children from left to right. -/
def nodes (index : Nat) : Spec → List Node
  | s@⟨_, _, _, _, _, _, _, additions⟩ =>
    ⟨[index], [], s⟩ :: (nodesOf 0 additions).map (Node.under index s)

/-- The nodes of a forest whose roots have indices from the given one on. -/
def nodesOf (index : Nat) : List Spec → List Node
  | [] => []
  | s :: ss => s.nodes index ++ nodesOf (index + 1) ss

end

end Spec

namespace Dataset

def nodes (s : Dataset) : List Node := Spec.nodesOf 0 s.theories

def checks (s : Dataset) : List (Node × Check) :=
  s.nodes.flatMap fun n => n.spec.checks.map (n, ·)

end Dataset

end DefaultLogic
