import DefaultLogic.Proofs.Default.Renaming
import DefaultLogic.Proofs.Theory.Holding
import Mathlib.Computability.Primrec.List
import Mathlib.Data.List.Permutation

/-!
# More inconsistent atoms say less

A model under few inconsistent atoms becomes a model under more: the names of the negations that are
new get the values that the negations have.  As long as names are plain, this changes no atom of
the formulas.

* `Matches.eval_pnnf`: **the normal form under more inconsistent atoms has the truth value of the
  one under fewer.**
* `satisfiable_of_subset`, `entails_of_subset`: so formulas stay satisfiable, and entail no more.
* `ParaconsistentTheory.answers_of_subset`: **declaring more atoms inconsistent only weakens a
  theory.**
-/

namespace DefaultLogic

open DefaultLogic.Sat

variable {known S S' : List String} {v w : Valuation} {fs : List Formula} {f : Formula}

/-- **The normal form under more inconsistent atoms has the truth value of the one under fewer**,
where the names that are not used yet stand for the negations. -/
theorem Matches.eval_pnnf (h : Matches known S v w) (hsub : S ⊆ S') (hf : f.occurrences ⊆ known) :
    (f.pnnf S').eval w = (f.pnnf S).eval v := by
  have hclassical : ∀ a ∈ f.occurrences, NegationStyle.full.renames a = true →
      (NegationStyle.paraconsistent S').renames a = false → w (negatedName a) = !w a := by
    intro a ha _ hS'
    have hmem : a ∉ S := mt (@hsub a) (NegationStyle.not_renames_paraconsistent.1 hS')
    rw [h.negation a (hf ha), if_neg hmem, h.atom a (hf ha)]
  rw [h.eval_fullPnnf hf]
  exact (Formula.eval_push_of_renames (.paraconsistent S') .full rfl (fun _ _ => rfl) hclassical
    true).symm

theorem Matches.satisfies_pnnf (h : Matches known S v w) (hsub : S ⊆ S')
    (hfs : ∀ f ∈ fs, f.occurrences ⊆ known) (hv : Satisfies v (fs.map (Formula.pnnf S))) :
    Satisfies w (fs.map (Formula.pnnf S')) := by
  rw [satisfies_map] at hv ⊢
  intro f hf
  rw [h.eval_pnnf hsub (hfs f hf)]
  exact hv f hf

section

variable (hplain : ∀ a ∈ known, IsPlain a) (hsub : S ⊆ S') (hfs : ∀ f ∈ fs, f.occurrences ⊆ known)

include hplain hsub hfs

theorem satisfiable_of_subset (h : ∃ v, Satisfies v (fs.map (Formula.pnnf S))) :
    ∃ w, Satisfies w (fs.map (Formula.pnnf S')) := by
  obtain ⟨v, hv⟩ := h
  exact ⟨_, (matches_renamedValuation hplain S v).satisfies_pnnf hsub hfs hv⟩

theorem entails_of_subset (hf : f.occurrences ⊆ known)
    (h : Entails (fs.map (Formula.pnnf S')) (f.pnnf S')) :
    Entails (fs.map (Formula.pnnf S)) (f.pnnf S) := by
  intro v hv
  have hmatch := matches_renamedValuation hplain S v
  rw [← hmatch.eval_pnnf hsub hf]
  exact h _ (hmatch.satisfies_pnnf hsub hfs hv)

end

namespace ParaconsistentTheory

variable {solver : Solver} {t t' : ParaconsistentTheory solver}

/-- **Declaring more atoms inconsistent only weakens a theory.**  What is satisfiable under fewer
inconsistent atoms is so under more, a formula that is asked about included, and what is entailed
under more is entailed under fewer. -/
theorem answers_of_subset (hs : solver.Decides) (ht : t.Holds fs S) (ht' : t'.Holds fs S')
    (hsub : S ⊆ S') (f : Formula) (hplain : ∀ g ∈ f :: fs, ∀ a ∈ g.occurrences, IsPlain a) :
    ((GroundLogic.satisfiable none t).value.1 = true →
        (GroundLogic.satisfiable none t').value.1 = true) ∧
      ((GroundLogic.satisfiable (some f) t).value.1 = true →
        (GroundLogic.satisfiable (some f) t').value.1 = true) ∧
      ((GroundLogic.entails f t').value.1 = true → (GroundLogic.entails f t).value.1 = true) := by
  have hknown : ∀ a ∈ (f :: fs).flatMap Formula.occurrences, IsPlain a :=
    List.forall_mem_flatMap.2 hplain
  have hocc : ∀ g ∈ f :: fs, g.occurrences ⊆ (f :: fs).flatMap Formula.occurrences :=
    fun g hg a ha => List.mem_flatMap.2 ⟨g, hg, ha⟩
  have hfs : ∀ g ∈ fs, g.occurrences ⊆ (f :: fs).flatMap Formula.occurrences :=
    fun g hg => hocc g (List.mem_cons_of_mem _ hg)
  have hf : f.occurrences ⊆ (f :: fs).flatMap Formula.occurrences := hocc f List.mem_cons_self
  have hreads := ht.reads hs
  have hreads' := ht'.reads hs
  refine ⟨?_, ?_, ?_⟩
  · rw [Reading.satisfiable_iff _ none hreads, Reading.satisfiable_iff _ none hreads']
    refine satisfiable_of_subset hknown hsub ?_
    rw [Option.toList_none, List.append_nil]
    exact hfs
  · rw [Reading.satisfiable_iff _ _ hreads, Reading.satisfiable_iff _ _ hreads']
    refine satisfiable_of_subset hknown hsub (List.forall_mem_append.2 ⟨hfs, ?_⟩)
    exact List.forall_mem_singleton.2 hf
  · rw [Reading.entails_iff _ f hreads, Reading.entails_iff _ f hreads']
    exact entails_of_subset hknown hsub hfs hf

/-- Of an atom that is both true and false an internal implication still tells what follows, be that
inconsistent as well. -/
theorem answers_of_subset_internal :
    let fs : List Formula :=
      [.atom "a", .not (.atom "a"), .implication (.atom "a") (.not (.atom "b"))]
    let f : Formula := .not (.atom "b")
    let t := (GroundLogic.addAll ({} : ParaconsistentTheory solve) fs).setInconsistent ["a"]
    let t' := (GroundLogic.addAll ({} : ParaconsistentTheory solve) fs).setInconsistent ["b", "a"]
    solve.Decides ∧ t.Holds fs ["a"] ∧ t'.Holds fs ["b", "a"] ∧ ["a"] ⊆ ["b", "a"] ∧
      (∀ g ∈ f :: fs, ∀ a ∈ g.occurrences, IsPlain a) ∧
      (GroundLogic.satisfiable (some f) t).value.1 = true ∧
      (GroundLogic.satisfiable (some f) t').value.1 = true ∧
      (GroundLogic.entails f t').value.1 = true ∧ (GroundLogic.entails f t).value.1 = true := by
  intro fs f t t'
  have hplain : ∀ g ∈ f :: fs, ∀ a ∈ g.occurrences, IsPlain a := by
    decide
  have hsatisfiable : (GroundLogic.satisfiable (some f) t).value.1 = true := by
    dsimp only [t, t', f, fs]
    cbv
  have hentails : (GroundLogic.entails f t').value.1 = true := by
    dsimp only [t, t', f, fs]
    cbv
  obtain ⟨-, hmore, hless⟩ := answers_of_subset solve_decides (holds_addAll fs ["a"])
    (holds_addAll fs ["b", "a"]) (by decide) f hplain
  exact ⟨solve_decides, holds_addAll fs _, holds_addAll fs _, by decide, hplain,
    hsatisfiable, hmore hsatisfiable, hentails, hless hentails⟩

end ParaconsistentTheory

end DefaultLogic
