/-!
# Propositional formulas

Conjunctions and disjunctions take any number of operands; the two implications and the
equivalence take two.  Structural equality is decidable, and `Formula.induction` is induction with
a hypothesis for every operand of a junction.
-/

namespace DefaultLogic

inductive Junction where
  | and
  | or
  deriving DecidableEq

def Junction.dual : Junction → Junction
  | .and => .or
  | .or => .and

/-- The connectives over two operands.  The material and the internal implication have the same
classical meaning; they part in paraconsistent theories. -/
inductive Arrow where
  | material
  | internal
  | equivalence
  deriving DecidableEq

inductive Connective where
  | not
  | junction (j : Junction)
  | arrow (a : Arrow)
  deriving DecidableEq

inductive Formula where
  | atom (name : String)
  | not (f : Formula)
  | junction (j : Junction) (fs : List Formula)
  | arrow (a : Arrow) (l r : Formula)

namespace Connective

/-- A prefix connective stands before its only operand, an infix one between its operands. -/
def isPrefix (c : Connective) : Bool := c = .not

def isInfix (c : Connective) : Bool := !c.isPrefix

def isImplicative (c : Connective) : Bool := c = .arrow .material || c = .arrow .internal

end Connective

namespace Formula

abbrev and (fs : List Formula) : Formula := .junction .and fs

abbrev or (fs : List Formula) : Formula := .junction .or fs

abbrev imply (l r : Formula) : Formula := .arrow .material l r

abbrev implication (l r : Formula) : Formula := .arrow .internal l r

abbrev equiv (l r : Formula) : Formula := .arrow .equivalence l r

instance : Inhabited Formula := ⟨.and []⟩

/-- Induction on formulas, with the hypothesis for each operand of a junction. -/
@[elab_as_elim, induction_eliminator]
theorem induction {motive : Formula → Prop} (atom : ∀ name, motive (.atom name))
    (not : ∀ f, motive f → motive (.not f))
    (junction : ∀ j fs, (∀ f ∈ fs, motive f) → motive (.junction j fs))
    (arrow : ∀ a l r, motive l → motive r → motive (.arrow a l r)) (f : Formula) : motive f :=
  @Formula.rec motive (fun fs => ∀ f ∈ fs, motive f)
    atom not junction arrow (fun _ h => absurd h List.not_mem_nil)
    (fun _ _ hf hfs _ h => (List.mem_cons.1 h).elim (fun e => e ▸ hf) (hfs _)) f

mutual

private def decideEq : (f g : Formula) → Decidable (f = g)
  | .atom a, .atom b => decidable_of_iff (a = b) (by simp)
  | .not f, .not g =>
    have := decideEq f g
    decidable_of_iff (f = g) (by simp)
  | .junction i fs, .junction j gs =>
    have := decideEqEach fs gs
    decidable_of_iff (i = j ∧ fs = gs) (by simp)
  | .arrow a l r, .arrow b l' r' =>
    have := decideEq l l'
    have := decideEq r r'
    decidable_of_iff (a = b ∧ l = l' ∧ r = r') (by simp)
  | .atom _, .not _ | .atom _, .junction .. | .atom _, .arrow .. => isFalse nofun
  | .not _, .atom _ | .not _, .junction .. | .not _, .arrow .. => isFalse nofun
  | .junction .., .atom _ | .junction .., .not _ | .junction .., .arrow .. => isFalse nofun
  | .arrow .., .atom _ | .arrow .., .not _ | .arrow .., .junction .. => isFalse nofun

private def decideEqEach : (fs gs : List Formula) → Decidable (fs = gs)
  | [], [] => isTrue rfl
  | f :: fs, g :: gs =>
    have := decideEq f g
    have := decideEqEach fs gs
    decidable_of_iff (f = g ∧ fs = gs) (by simp)
  | [], _ :: _ => isFalse nofun
  | _ :: _, [] => isFalse nofun

end

instance : DecidableEq Formula := decideEq

/-- The connective at the root; an atom has none. -/
def connective? : Formula → Option Connective
  | .atom _ => none
  | .not _ => some .not
  | .junction j _ => some (.junction j)
  | .arrow a _ _ => some (.arrow a)

def atomName? : Formula → Option String
  | .atom name => some name
  | _ => none

def isLiteral : Formula → Bool
  | .atom _ => true
  | .not (.atom _) => true
  | _ => false

def literal (name : String) (positive : Bool) : Formula :=
  if positive then .atom name else .not (.atom name)

def operands : Formula → List Formula
  | .atom _ => []
  | .not f => [f]
  | .junction _ fs => fs
  | .arrow _ l r => [l, r]

def mapOperands (m : Formula → Formula) : Formula → Formula
  | .atom name => .atom name
  | .not f => .not (m f)
  | .junction j fs => .junction j (fs.map m)
  | .arrow a l r => .arrow a (m l) (m r)

/-- The formula that joins two formulas by an infix connective. -/
def binary? (l r : Formula) : Connective → Option Formula
  | .not => none
  | .junction j => some (.junction j [l, r])
  | .arrow a => some (.arrow a l r)

mutual

/-- The atoms from left to right, with repetitions. -/
def occurrences : Formula → List String
  | .atom name => [name]
  | .not f => f.occurrences
  | .junction _ fs => occurrencesEach fs
  | .arrow _ l r => l.occurrences ++ r.occurrences

private def occurrencesEach : List Formula → List String
  | [] => []
  | f :: fs => f.occurrences ++ occurrencesEach fs

end

private theorem occurrencesEach_eq_flatMap (fs : List Formula) :
    occurrencesEach fs = fs.flatMap occurrences := by
  induction fs with
  | nil => rfl
  | cons f fs ih => simp [occurrencesEach, ih]

@[simp] theorem occurrences_junction (j : Junction) (fs : List Formula) :
    (junction j fs).occurrences = fs.flatMap occurrences := by
  simp [occurrences, occurrencesEach_eq_flatMap]

/-- The atoms in order of first occurrence. -/
def atoms (f : Formula) : List String := f.occurrences.eraseDups

end Formula

end DefaultLogic
