import DefaultLogic.Dataset.Basic
import DefaultLogic.Dialect.Render

/-!
# Written datasets

Rules and facts are written in a dialect, as a dataset on one line which a dataset reader
understands.
-/

namespace DefaultLogic.Dataset

def document (dialect : String) (rules facts : List String) : Json :=
  .object [(some "format", .string dialect), (some "fact", .texts facts),
    (some "rule", .texts rules)]

/-- Whether the document of a theory, written on a line, is read as what it says. -/
def Format.IsFaithful (F : Format) : Prop :=
  ∀ dialect rules facts, F.read (F.write (document dialect rules facts) ++ "\n") =
    .ok { format? := some dialect, theories := [{ rules, facts }] }

def written (F : Format) (d : Dialect) (rules : List Rule) (facts : List Formula) : String :=
  F.write (document d.name (rules.map d.renderRule) (facts.map d.renderFormula)) ++ "\n"

end DefaultLogic.Dataset
