import DefaultLogic.Dialect.Basic
import DefaultLogic.Rule

/-!
# Written forms

In plain text every compound formula but a negation stands in parentheses; in the display markup
every formula stands in braces.  A junction with one operand is written as its operand.
-/

namespace DefaultLogic

namespace Formula

def joinPlain (c : Connective) : List String → String
  | [t] => t
  | ts => "(" ++ (" " ++ c.plain ++ " ").intercalate ts ++ ")"

mutual

def plain : Formula → String
  | .atom name => name
  | .not f => Connective.plain .not ++ f.plain
  | .junction j fs => joinPlain (.junction j) (plainEach fs)
  | .arrow a l r => joinPlain (.arrow a) [l.plain, r.plain]

private def plainEach : List Formula → List String
  | [] => []
  | f :: fs => f.plain :: plainEach fs

end

private theorem plainEach_eq_map (fs : List Formula) : plainEach fs = fs.map plain := by
  induction fs with
  | nil => rfl
  | cons f fs ih => simp [plainEach, ih]

@[simp] theorem plain_junction (j : Junction) (fs : List Formula) :
    (junction j fs).plain = joinPlain (.junction j) (fs.map plain) := by
  simp [plain, plainEach_eq_map]

def braced (s : String) : String := "\x7b" ++ s ++ "\x7d"

mutual

def markup : Formula → String
  | .atom name => braced name
  | .not f => braced (Connective.markup .not ++ f.markup)
  | .junction j fs => braced ((Connective.junction j).markup.intercalate (markupEach fs))
  | .arrow a l r => braced ((Connective.arrow a).markup.intercalate [l.markup, r.markup])

private def markupEach : List Formula → List String
  | [] => []
  | f :: fs => f.markup :: markupEach fs

end

private theorem markupEach_eq_map (fs : List Formula) : markupEach fs = fs.map markup := by
  induction fs with
  | nil => rfl
  | cons f fs ih => simp [markupEach, ih]

@[simp] theorem markup_junction (j : Junction) (fs : List Formula) :
    (junction j fs).markup =
      braced ((Connective.junction j).markup.intercalate (fs.map markup)) := by
  simp [markup, markupEach_eq_map]

/-- A set of formulas in plain text, `{f, g}`. -/
def plainSet (fs : List Formula) : String := braced (", ".intercalate (fs.map plain))

/-- A set of formulas in the display markup, `\{f, g\}`. -/
def markupSet (fs : List Formula) : String :=
  "\\" ++ braced (", ".intercalate (fs.map markup) ++ "\\")

end Formula

namespace Dialect

def renderFormula : Dialect → Formula → String
  | .plainText => Formula.plain
  | .displayMarkup => Formula.markup

/-- A rule is written `prerequisite : justification / consequent` in both dialects. -/
def renderRule (d : Dialect) (r : Rule) : String :=
  d.renderFormula r.prerequisite ++ " : " ++ d.renderFormula r.justification ++ " / " ++
    d.renderFormula r.consequent

def renderSet : Dialect → List Formula → String
  | .plainText => Formula.plainSet
  | .displayMarkup => Formula.markupSet

end Dialect

namespace Rule

def plain (r : Rule) : String := Dialect.plainText.renderRule r

def fraction (r : Rule) : String :=
  "\\frac" ++ Formula.braced (r.prerequisite.markup ++ ":" ++ r.justification.markup) ++
    r.consequent.markup

end Rule

/-- A default theory in plain text, its rules before its facts. -/
def plainTheory (rules : List Rule) (facts : List Formula) : String :=
  "(" ++ Formula.braced (", ".intercalate (rules.map Rule.plain)) ++ ", " ++
    Formula.plainSet facts ++ ")"

def markupTheory (rules : List Rule) (facts : List Formula) : String :=
  "(\\" ++ Formula.braced (", ".intercalate (rules.map Rule.fraction) ++ "\\") ++ ", " ++
    Formula.markupSet facts ++ ")"

end DefaultLogic
