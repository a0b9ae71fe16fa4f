import DefaultLogic.Proofs.Default.Contradictions
import DefaultLogic.Proofs.Default.Weakening

/-!
# Testers decide which atoms are needed

The tester of an inconsistent atom fails exactly where the atom differs from its negation, that is,
where the atom is classical.  Formulas entail it if they have no such model, so if they need the
atom to be inconsistent.

* `entails_inconsistencyTester`: formulas without a model in which the atom is classical entail its
  tester.
* `not_entails_inconsistencyTester`: those with one do not.
* `ParaconsistentTheory.entails_inconsistencyTester_iff`: **a theory entails the tester of an
  inconsistent atom exactly if it is not satisfiable without this atom.**
-/

namespace DefaultLogic

open DefaultLogic.Sat

variable {S : List String} {a : String} {v : Valuation} {fs : List Formula}

theorem mem_filter_ne {b : String} : b ∈ S.filter (· ≠ a) ↔ b ∈ S ∧ b ≠ a := by
  rw [List.mem_filter, decide_eq_true_iff]

/-- Where an atom is classical it does not matter whether it may be inconsistent. -/
theorem eval_pnnf_filter_ne (ha : v a ≠ v (negatedName a)) (f : Formula) :
    (f.pnnf (S.filter (· ≠ a))).eval v = (f.pnnf S).eval v := by
  refine (Formula.eval_push_of_renames (.paraconsistent (S.filter (· ≠ a))) (.paraconsistent S) rfl
    (fun b hb => ?_) (fun b _ hS hfilter => ?_) true).symm
  · rw [NegationStyle.renames_paraconsistent, mem_filter_ne] at hb
    exact NegationStyle.renames_paraconsistent.2 hb.1
  · -- The atom itself is the only one that the smaller set leaves out.
    rw [NegationStyle.renames_paraconsistent] at hS
    rw [NegationStyle.not_renames_paraconsistent, mem_filter_ne, not_and_not_right] at hfilter
    obtain rfl := hfilter hS
    exact Bool.eq_not.2 ha.symm

section

variable (ha : a ∈ S)

include ha

theorem eval_pnnf_inconsistencyTester :
    ((inconsistencyTester a).pnnf S).eval v = true ↔ v a = v (negatedName a) := by
  rw [Formula.pnnf, eval_push_inconsistencyTester (NegationStyle.renames_paraconsistent.2 ha),
    beq_iff_eq]

/-- **Formulas that are not satisfiable without an atom entail its tester.** -/
theorem entails_inconsistencyTester
    (h : ¬∃ v, Satisfies v (fs.map (Formula.pnnf (S.filter (· ≠ a))))) :
    Entails (fs.map (Formula.pnnf S)) ((inconsistencyTester a).pnnf S) := by
  intro v hv
  rw [eval_pnnf_inconsistencyTester ha]
  refine Classical.byContradiction fun hne => h ⟨v, ?_⟩
  rw [satisfies_map] at hv ⊢
  intro f hf
  rw [eval_pnnf_filter_ne hne]
  exact hv f hf

/-- **Formulas that are satisfiable without an atom do not entail its tester**: with the name of its
negation set to what the negation is, a model without the atom is one in which it is classical. -/
theorem not_entails_inconsistencyTester (hplain : ∀ f ∈ fs, ∀ b ∈ f.occurrences, IsPlain b)
    (haplain : IsPlain a) (hv : Satisfies v (fs.map (Formula.pnnf (S.filter (· ≠ a))))) :
    ¬Entails (fs.map (Formula.pnnf S)) ((inconsistencyTester a).pnnf S) := by
  have hknown : ∀ b ∈ a :: fs.flatMap Formula.occurrences, IsPlain b :=
    List.forall_mem_cons.2 ⟨haplain, List.forall_mem_flatMap.2 hplain⟩
  have hmatch := matches_renamedValuation hknown (S.filter (· ≠ a)) v
  have hnegation := hmatch.negation a List.mem_cons_self
  rw [if_neg fun hmem => (mem_filter_ne.1 hmem).2 rfl,
    ← hmatch.atom a List.mem_cons_self] at hnegation
  have hmodel := hmatch.satisfies_pnnf (List.filter_subset_self _)
    (fun f hf b hb => List.mem_cons_of_mem _ (List.mem_flatMap.2 ⟨f, hf, hb⟩)) hv
  intro htest
  have hequal := (eval_pnnf_inconsistencyTester ha).1 (htest _ hmodel)
  rw [hnegation] at hequal
  exact (Bool.eq_not_self _).1 hequal

end

namespace ParaconsistentTheory

variable {solver : Solver} {t u : ParaconsistentTheory solver}

/-- **A theory entails the tester of an inconsistent atom exactly if it is not satisfiable without
this atom.** -/
theorem entails_inconsistencyTester_iff (hs : solver.Decides) (ht : t.Holds fs S)
    (hu : u.Holds fs (S.filter (· ≠ a))) (ha : a ∈ S)
    (hplain : ∀ f ∈ fs, ∀ b ∈ f.occurrences, IsPlain b) (hS : ∀ b ∈ S, IsPlain b) :
    (GroundLogic.entails (inconsistencyTester a) t).value.1 = true ↔
      (GroundLogic.satisfiable none u).value.1 = false := by
  rw [Reading.entails_iff _ _ (ht.reads hs), ← Bool.not_eq_true,
    Reading.satisfiable_iff _ none (hu.reads hs), Option.toList_none, List.append_nil]
  constructor
  · rintro h ⟨v, hv⟩
    exact not_entails_inconsistencyTester ha hplain (hS a ha) hv h
  · exact entails_inconsistencyTester ha

/-- Of two atoms that may be inconsistent only one is needed. -/
theorem entails_inconsistencyTester_iff_needed :
    let fs : List Formula := [.atom "a", .imply (.atom "a") (.not (.atom "b")),
      .equiv (.atom "a") (.not (.atom "a"))]
    let t := (GroundLogic.addAll ({} : ParaconsistentTheory solve) fs).setInconsistent ["a", "b"]
    solve.Decides ∧ t.Holds fs ["a", "b"] ∧
      (∀ f ∈ fs, ∀ b ∈ f.occurrences, IsPlain b) ∧ (∀ b ∈ ["a", "b"], IsPlain b) ∧
      ((GroundLogic.entails (inconsistencyTester "a") t).value.1 = true ∧
        (GroundLogic.satisfiable none (t.setInconsistent ["b"])).value.1 = false) ∧
      ((GroundLogic.entails (inconsistencyTester "b") t).value.1 = false ∧
        (GroundLogic.satisfiable none (t.setInconsistent ["a"])).value.1 = true) := by
  intro fs t
  have ht : t.Holds fs ["a", "b"] := holds_addAll fs _
  have hplain : ∀ f ∈ fs, ∀ b ∈ f.occurrences, IsPlain b := by
    decide
  have hS : ∀ b ∈ ["a", "b"], IsPlain b := by
    decide
  have hwithoutA : (t.setInconsistent ["b"]).Holds fs (["a", "b"].filter (· ≠ "a")) :=
    ht.setInconsistent ["b"]
  have hwithoutB : (t.setInconsistent ["a"]).Holds fs (["a", "b"].filter (· ≠ "b")) :=
    ht.setInconsistent ["a"]
  have ha := entails_inconsistencyTester_iff solve_decides ht hwithoutA (by decide)
    hplain hS
  have hb := entails_inconsistencyTester_iff solve_decides ht hwithoutB (by decide)
    hplain hS
  have hneeded : (GroundLogic.entails (inconsistencyTester "a") t).value.1 = true := by
    dsimp only [t, fs]
    cbv
  have hunneeded : (GroundLogic.satisfiable none (t.setInconsistent ["a"])).value.1 = true := by
    dsimp only [t, fs]
    cbv
  refine ⟨solve_decides, ht, hplain, hS, ⟨hneeded, ha.1 hneeded⟩, ?_, hunneeded⟩
  rw [← Bool.not_eq_true]
  exact fun h => Bool.false_ne_true ((hb.1 h).symm.trans hunneeded)

end ParaconsistentTheory

end DefaultLogic
