import DefaultLogic.Dialect.Grammar
import DefaultLogic.Dialect.Render
import DefaultLogic.Formula.Flat

/-!
# What can be read back

A junction with one operand is written as that operand, and one without operands has no written
form.  A name is read as an atom if it matches the pattern and is no command of a connective.
-/

namespace DefaultLogic

namespace Formula

inductive MinOperands (n : Nat) : Formula → Prop
  | atom (name : String) : MinOperands n (.atom name)
  | not {f} (h : MinOperands n f) : MinOperands n (.not f)
  | junction {fs} (j : Junction) (length : n ≤ fs.length) (h : ∀ f ∈ fs, MinOperands n f) :
      MinOperands n (.junction j fs)
  | arrow {l r} (a : Arrow) (hl : MinOperands n l) (hr : MinOperands n r) :
      MinOperands n (.arrow a l r)

mutual

/-- The formula with every junction of a single operand replaced by it. -/
def collapsed : Formula → Formula
  | .atom name => .atom name
  | .not f => .not f.collapsed
  | .junction j fs => joined j (collapsedEach fs)
  | .arrow a l r => .arrow a l.collapsed r.collapsed

private def collapsedEach : List Formula → List Formula
  | [] => []
  | f :: fs => f.collapsed :: collapsedEach fs

end

private theorem collapsedEach_eq_map (fs : List Formula) : collapsedEach fs = fs.map collapsed := by
  induction fs with
  | nil => rfl
  | cons f fs ih => simp [collapsedEach, ih]

@[simp] theorem collapsed_junction (j : Junction) (fs : List Formula) :
    (junction j fs).collapsed = joined j (fs.map collapsed) := by
  simp [collapsed, collapsedEach_eq_map]

end Formula

namespace Statement

def formulas : Statement → List Formula
  | .formula f => [f]
  | .rule r => [r.prerequisite, r.justification, r.consequent]

def map (m : Formula → Formula) : Statement → Statement
  | .formula f => .formula (m f)
  | .rule r => .rule (r.map m)

end Statement

namespace Dialect

def render (d : Dialect) : Statement → String
  | .formula f => d.renderFormula f
  | .rule r => d.renderRule r

/-- A name that is read as an atom. -/
structure IsName (d : Dialect) (name : String) : Prop where
  pattern : AtomPattern name.toList
  noCommand : d = .displayMarkup → ∀ c : Connective, name.toList ≠ c.markup.toList ∧
    ∀ digit : Char, digit.isDigit = true → name.toList ≠ c.markup.toList ++ ['_', digit]

end Dialect

end DefaultLogic
