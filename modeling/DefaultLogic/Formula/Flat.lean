import DefaultLogic.Formula.Basic

/-!
# Flat junctions

Nested junctions of one kind are merged and a junction with a single operand is replaced by it.
Other formulas are left as they are, their operands included.
-/

namespace DefaultLogic

namespace Formula

/-- The operands that a formula brings to a junction `j`: its own when it is such a junction. -/
def mergedInto (j : Junction) (f : Formula) : List Formula :=
  match f with
  | .junction i fs => if i = j then fs else [f]
  | _ => [f]

/-- A junction, unless it has a single operand. -/
def joined (j : Junction) : List Formula → Formula
  | [f] => f
  | fs => .junction j fs

mutual

def flat : Formula → Formula
  | .junction j fs => joined j (flatEach j fs)
  | .atom name => .atom name
  | .not f => .not f
  | .arrow a l r => .arrow a l r

private def flatEach (j : Junction) : List Formula → List Formula
  | [] => []
  | f :: fs => f.flat.mergedInto j ++ flatEach j fs

end

private theorem flatEach_eq_flatMap (j : Junction) (fs : List Formula) :
    flatEach j fs = fs.flatMap fun f => f.flat.mergedInto j := by
  induction fs with
  | nil => rfl
  | cons f fs ih => simp [flatEach, ih]

@[simp] theorem flat_junction (j : Junction) (fs : List Formula) :
    (junction j fs).flat = joined j (fs.flatMap fun f => f.flat.mergedInto j) := by
  simp [flat, flatEach_eq_flatMap]

end Formula

end DefaultLogic
