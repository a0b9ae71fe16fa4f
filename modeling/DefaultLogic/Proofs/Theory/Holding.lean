import DefaultLogic.Proofs.Theory.Paraconsistent

/-!
# What a theory was told

A theory comes from an empty one by calls.  Formulas are added to it and, if it is paraconsistent,
its inconsistent atoms are declared anew; it is asked questions in between and may have compiled
for some of them.  A copy is the theory itself, as sharing what is compiled cannot be seen
(`SharedTheory.Refines`).

* `ClassicalTheory.Holds.reads`, `ParaconsistentTheory.Holds.reads`: **whatever was asked in
  between, a theory answers for the formulas it was told and the atoms that were declared last.**
-/

namespace DefaultLogic

open DefaultLogic.Sat

variable {solver : Solver} {fs : List Formula}

namespace ClassicalTheory

/-- The theories that were told the given formulas, in this order. -/
inductive Holds : List Formula → ClassicalTheory solver → Prop
  | empty : Holds [] {}
  | add {fs t} (f : Formula) : Holds fs t → Holds (fs ++ [f]) (GroundLogic.add t f)
  | satisfiable {fs t} (f? : Option Formula) :
    Holds fs t → Holds fs (GroundLogic.satisfiable f? t).value.2
  | entails {fs t} (f : Formula) : Holds fs t → Holds fs (GroundLogic.entails f t).value.2

variable {t : ClassicalTheory solver}

theorem Holds.reads (hs : solver.Decides) (h : Holds fs t) : (reading hs).Reads id fs t := by
  induction h with
  | empty => exact reads_empty hs
  | add f _ ih => exact (reading hs).add f ih
  | satisfiable f? _ ih => exact (reading hs).afterSatisfiable f? ih
  | entails f _ ih => exact (reading hs).afterEntails f ih

end ClassicalTheory

namespace ParaconsistentTheory

/-- The theories that were told the given formulas, in this order, and of which the given atoms were
declared inconsistent last. -/
inductive Holds : List Formula → List String → ParaconsistentTheory solver → Prop
  | empty : Holds [] [] {}
  | add {fs S t} (f : Formula) : Holds fs S t → Holds (fs ++ [f]) S (GroundLogic.add t f)
  | setInconsistent {fs S t} (names : List String) :
    Holds fs S t → Holds fs names (t.setInconsistent names)
  | satisfiable {fs S t} (f? : Option Formula) :
    Holds fs S t → Holds fs S (GroundLogic.satisfiable f? t).value.2
  | entails {fs S t} (f : Formula) : Holds fs S t → Holds fs S (GroundLogic.entails f t).value.2
  | compile {fs S t} : Holds fs S t → Holds fs S t.compile.value.2

variable {t : ParaconsistentTheory solver} {S : List String}

theorem Holds.reads (hs : solver.Decides) (h : Holds fs S t) :
    (reading hs S).Reads (Formula.pnnf S) fs t := by
  induction h with
  | empty => exact reads_empty hs
  | add f _ ih => exact (reading hs _).add f ih
  | setInconsistent names _ ih => exact reads_setInconsistent hs ih names
  | satisfiable f? _ ih => exact (reading hs _).afterSatisfiable f? ih
  | entails f _ ih => exact (reading hs _).afterEntails f ih
  | compile _ ih =>
    obtain ⟨hm, hnames, hfs, hfresh⟩ := ih
    rw [value_compile hfresh]
    exact ⟨hm, hnames, hfs, isFresh_compiled _⟩

theorem holds_addAll (fs : List Formula) (S : List String) :
    Holds fs S ((GroundLogic.addAll ({} : ParaconsistentTheory solver) fs).setInconsistent S) := by
  have hadd : ∀ (gs : List Formula) (t : ParaconsistentTheory solver), Holds gs [] t →
      Holds (gs ++ fs) [] (GroundLogic.addAll t fs) := by
    induction fs with
    | nil => exact fun gs t h => (List.append_nil gs).symm ▸ h
    | cons f fs ih =>
      intro gs t h
      rw [List.append_cons]
      exact ih _ _ (h.add f)
  exact (hadd [] {} .empty).setInconsistent S

end ParaconsistentTheory

end DefaultLogic
