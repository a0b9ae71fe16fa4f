import DefaultLogic.Formula.Basic

/-!
# The order of formulas

Formulas are ordered by their root (atom, negation, conjunction, disjunction, material implication,
internal implication, equivalence), then by atom name or by their operands from left to right, a
list of operands coming before its extensions.  Names are ordered by code point.
-/

namespace DefaultLogic

/-- The place of a connective in the order `!`, `&`, `|`, `->`, `=)`, `<->`. -/
def Connective.rank : Connective → Nat
  | .not => 0
  | .junction .and => 1
  | .junction .or => 2
  | .arrow .material => 3
  | .arrow .internal => 4
  | .arrow .equivalence => 5

instance : Ord Connective where
  compare c d := compare c.rank d.rank

theorem Connective.rank_injective {c d : Connective} (h : c.rank = d.rank) : c = d := by
  revert h
  rcases c with _ | (_ | _) | (_ | _ | _) <;> rcases d with _ | (_ | _) | (_ | _ | _) <;>
    simp [Connective.rank]

namespace Formula

/-- An atom comes before every compound formula. -/
def rank (f : Formula) : Nat := (f.connective?.map (·.rank + 1)).getD 0

mutual

def cmp : Formula → Formula → Ordering
  | .atom a, .atom b => compare a b
  | .not f, .not g => f.cmp g
  | .junction i fs, .junction j gs =>
    (compare (Connective.junction i) (.junction j)).then (cmpEach fs gs)
  | .arrow a l r, .arrow b l' r' =>
    (compare (Connective.arrow a) (.arrow b)).then ((l.cmp l').then (r.cmp r'))
  | f, g => compare f.rank g.rank

def cmpEach : List Formula → List Formula → Ordering
  | [], [] => .eq
  | [], _ :: _ => .lt
  | _ :: _, [] => .gt
  | f :: fs, g :: gs => (f.cmp g).then (cmpEach fs gs)

end

instance : Ord Formula := ⟨cmp⟩

end Formula

end DefaultLogic
