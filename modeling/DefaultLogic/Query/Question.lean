/-!
# Questions

One may ask how many extensions a default theory has, which they are, and whether a formula is
entailed, or not entailed, by some of them (credulously) or by all of them (skeptically).
-/

namespace DefaultLogic

inductive Mode where
  | credulous
  | skeptical
  deriving DecidableEq

inductive Question where
  | count
  | extensions
  | entailment (mode : Mode) (positive : Bool)
  deriving DecidableEq

namespace Question

def name : Question → String
  | .count => "has_extension"
  | .extensions => "all_extensions"
  | .entailment .credulous true => "credulous_entail"
  | .entailment .credulous false => "not_credulous_entail"
  | .entailment .skeptical true => "skeptical_entail"
  | .entailment .skeptical false => "not_skeptical_entail"

def ofName? : String → Option Question
  | "has_extension" => some .count
  | "all_extensions" => some .extensions
  | "credulous_entail" => some (.entailment .credulous true)
  | "not_credulous_entail" => some (.entailment .credulous false)
  | "skeptical_entail" => some (.entailment .skeptical true)
  | "not_skeptical_entail" => some (.entailment .skeptical false)
  | _ => none

theorem ofName?_name (q : Question) : ofName? q.name = some q := by
  rcases q with _ | _ | ⟨_ | _, _ | _⟩ <;> rfl

/-- Only the questions about entailment are about a formula. -/
def requiresFormula : Question → Bool
  | .entailment .. => true
  | _ => false

end Question

end DefaultLogic
