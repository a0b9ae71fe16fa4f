import DefaultLogic.Formula.Basic

/-!
# Dialects

Formulas are written as plain text, `!a & b -> c`, or in a display markup, `\lnot a \land b \to c`.
-/

namespace DefaultLogic

inductive Dialect where
  | plainText
  | displayMarkup
  deriving DecidableEq, Inhabited

def Connective.plain : Connective → String
  | .not => "!"
  | .junction .and => "&"
  | .junction .or => "|"
  | .arrow .material => "->"
  | .arrow .internal => "=)"
  | .arrow .equivalence => "<->"

def Connective.markup : Connective → String
  | .not => "\\lnot"
  | .junction .and => "\\land"
  | .junction .or => "\\lor"
  | .arrow .material => "\\to"
  | .arrow .internal => "\\supset"
  | .arrow .equivalence => "\\leftrightarrow"

namespace Dialect

def name : Dialect → String
  | .plainText => "plain-text"
  | .displayMarkup => "display-markup"

/-- Each dialect has two short names beside its own. -/
def ofName? : String → Option Dialect
  | "str" | "plain" | "plain-text" => some .plainText
  | "latex" | "markup" | "display-markup" => some .displayMarkup
  | _ => none

theorem ofName?_name (d : Dialect) : ofName? d.name = some d := by cases d <;> rfl

def symbol : Dialect → Connective → String
  | .plainText => Connective.plain
  | .displayMarkup => Connective.markup

end Dialect

end DefaultLogic
