import DefaultLogic.Formula.Basic

/-!
# Substitution

All atoms are replaced at once.  Of several replacements for one atom the last counts, and an atom
without a replacement stays.
-/

namespace DefaultLogic

abbrev Substitution := List (String × Formula)

def Substitution.find? (s : Substitution) (name : String) : Option Formula := s.reverse.lookup name

def Substitution.apply (s : Substitution) (name : String) : Formula :=
  (s.find? name).getD (.atom name)

namespace Formula

mutual

def bind (image : String → Formula) : Formula → Formula
  | .atom name => image name
  | .not f => .not (f.bind image)
  | .junction j fs => .junction j (bindEach image fs)
  | .arrow a l r => .arrow a (l.bind image) (r.bind image)

private def bindEach (image : String → Formula) : List Formula → List Formula
  | [] => []
  | f :: fs => f.bind image :: bindEach image fs

end

private theorem bindEach_eq_map (image : String → Formula) (fs : List Formula) :
    bindEach image fs = fs.map (bind image) := by
  induction fs with
  | nil => rfl
  | cons f fs ih => simp [bindEach, ih]

@[simp] theorem bind_junction (image : String → Formula) (j : Junction) (fs : List Formula) :
    (junction j fs).bind image = .junction j (fs.map (bind image)) := by
  simp [bind, bindEach_eq_map]

def subst (s : Substitution) : Formula → Formula := bind s.apply

end Formula

end DefaultLogic
