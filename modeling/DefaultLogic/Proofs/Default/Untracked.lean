import DefaultLogic.Proofs.Default.Stopping

/-!
# Formulas about other atoms

A contradiction is kept to its atoms.  An accepted extension is satisfiable, so one of its models
can be glued to any valuation of atoms that the theory does not track: what an extension entails
about these atoms is what holds anyway.

* `eval_pnnf_glued`: gluing keeps a model of formulas whose atoms are tracked.
* `entails_pnnf_iff_of_disjoint`: **satisfiable formulas entail a formula about other atoms only if
  it is a tautology.**
* `Theory.entails_iff_of_visits`: so does a visited extension.
* `Theory.entails_iff_of_untracked`: **there is no explosion**, under either encoding.
-/

namespace DefaultLogic

open DefaultLogic.Sat

def Formula.IsTautology (f : Formula) : Prop := ∀ v, f.eval v = true

/-! ## Glued valuations -/

/-- The valuation that is `v` on the atoms of a formula and `w` on all others. -/
def glued (f : Formula) (v w : Valuation) : Valuation := fun a =>
  if a ∈ f.occurrences then v a else w a

variable {solver : Solver} {f : Formula} {known inconsistent : List String}

theorem eval_glued (f : Formula) (v w : Valuation) : f.eval (glued f v w) = f.eval v :=
  Formula.eval_congr fun _ ha => if_pos ha

section

variable (hplain : ∀ a ∈ f.occurrences, IsPlain a) (hknown : ∀ a ∈ f.occurrences, a ∉ known)

include hplain hknown

/-- Gluing keeps the truth of normal forms whose atoms are known: no name of a negation is an atom
of the formula, since these are plain. -/
theorem eval_pnnf_glued {g : Formula} (hg : g.occurrences ⊆ known) (v w : Valuation) :
    (g.pnnf inconsistent).eval (glued f v w) = (g.pnnf inconsistent).eval w := by
  refine Formula.eval_push_of_agree _ (fun a ha => ?_) (fun a _ => ?_) true
  · exact if_neg fun hmem => hknown a hmem (hg ha)
  · exact if_neg fun hmem => hplain _ hmem a rfl

/-- **Satisfiable formulas entail a formula about other atoms only if it is a tautology.** -/
theorem entails_pnnf_iff_of_disjoint (hsub : inconsistent ⊆ known) {fs : List Formula}
    (hfs : ∀ g ∈ fs, g.occurrences ⊆ known)
    (hsat : ∃ v, Satisfies v (fs.map (Formula.pnnf inconsistent))) :
    Entails (fs.map (Formula.pnnf inconsistent)) (f.pnnf inconsistent) ↔ f.IsTautology := by
  have hclassical : ∀ v, (f.pnnf inconsistent).eval v = f.eval v :=
    Formula.eval_pnnf_of_disjoint fun a ha hmem => hknown a ha (hsub hmem)
  obtain ⟨w, hw⟩ := hsat
  constructor
  · intro h v
    have hmodel : Satisfies (glued f v w) (fs.map (Formula.pnnf inconsistent)) := by
      rw [satisfies_map] at hw ⊢
      intro g hg
      rw [eval_pnnf_glued hplain hknown (hfs g hg)]
      exact hw g hg
    have htrue := h (glued f v w) hmodel
    rwa [hclassical, eval_glued] at htrue
  · intro h v _
    rw [hclassical]
    exact h v

end

/-! ## Visited extensions -/

namespace Theory

variable {t : Theory}

/-- **A visited extension entails a formula about other atoms only if it is a tautology.** -/
theorem entails_iff_of_visits (hs : solver.Decides) (ht : t.IsTracked) {S : List String}
    (hS : S ⊆ t.atoms) {chosen : List Nat} {x : ParaconsistentTheory solver}
    (hx : (Encoding.native solver).Visits t.atoms (nativeTheory solver t) S chosen x)
    (hplain : ∀ a ∈ f.occurrences, IsPlain a) (hf : ∀ a ∈ f.occurrences, a ∉ t.atoms) :
    (GroundLogic.entails f x).value.1 = true ↔ f.IsTautology := by
  obtain ⟨hreads, hsat, -⟩ := reads_of_visits_native hs hx
  rw [Reading.entails_iff _ f hreads]
  exact entails_pnnf_iff_of_disjoint hplain hf hS
    (List.forall_mem_append.2 ⟨ht.facts, ht.consequents chosen⟩) hsat

/-! ## Questions -/

theorem entails_native_iff_of_untracked (hs : solver.Decides) (ht : t.IsTracked)
    (hplain : ∀ a ∈ f.occurrences, IsPlain a) (hf : ∀ a ∈ f.occurrences, a ∉ t.atoms) :
    ((t.entails solver .credulous f .native).value = true ↔
        f.IsTautology ∧ (t.extensions solver .native).value ≠ []) ∧
      ((t.entails solver .skeptical f .native).value = true ↔
        f.IsTautology ∨ (t.extensions solver .native).value = []) := by
  have hentails : ∀ mode, (t.entails solver mode f .native).value = true ↔
      mode.Among ((Encoding.native solver).shown t.atoms (nativeTheory solver t)
        (Subsets.bySize t.atoms)) fun x => (GroundLogic.entails f x).value.1 = true :=
    fun mode => entailsUnder_iff (.native solver) ht mode f
  have hextensions : (t.extensions solver .native).value = ((Encoding.native solver).shown t.atoms
      (nativeTheory solver t) (Subsets.bySize t.atoms)).map GroundLogic.formulas :=
    extensionsUnder_eq (.native solver) ht
  have hanswer : ∀ x ∈ (Encoding.native solver).shown t.atoms (nativeTheory solver t)
      (Subsets.bySize t.atoms), (GroundLogic.entails f x).value.1 = true ↔ f.IsTautology := by
    intro x hx
    obtain ⟨S, chosen, hS, hvisits⟩ := Encoding.exists_visits_of_mem_shown hx
    exact entails_iff_of_visits hs ht hS.subset hvisits hplain hf
  rw [hentails, hentails, hextensions, Ne, List.map_eq_nil_iff]
  generalize (Encoding.native solver).shown t.atoms (nativeTheory solver t)
    (Subsets.bySize t.atoms) = xs at hanswer
  constructor
  · constructor
    · rintro ⟨x, hx, htrue⟩
      exact ⟨(hanswer x hx).1 htrue, List.ne_nil_of_mem hx⟩
    · rintro ⟨htautology, hne⟩
      obtain ⟨x, hx⟩ := List.exists_mem_of_ne_nil xs hne
      exact ⟨x, hx, (hanswer x hx).2 htautology⟩
  · constructor
    · intro hall
      cases xs with
      | nil => exact .inr rfl
      | cons x xs =>
        exact .inl ((hanswer x List.mem_cons_self).1 (hall x List.mem_cons_self))
    · rintro (htautology | rfl)
      · exact fun x hx => (hanswer x hx).2 htautology
      · exact fun _ hx => absurd hx List.not_mem_nil

/-- **There is no explosion.**  Whatever contradictions a theory contains, under either encoding
some extension entails a formula about other atoms only if the formula is a tautology and there is
an extension, and all extensions entail it only if it is a tautology or there is no extension. -/
theorem entails_iff_of_untracked {solver : Solver} (hs : solver.Decides) (ss : List Statement)
    {f : Formula} (hplain : ∀ s ∈ ss, ∀ a ∈ s.occurrences, IsPlain a)
    (hf : ∀ a ∈ f.occurrences, IsPlain a)
    (hother : ∀ a ∈ f.occurrences, ∀ s ∈ ss, a ∉ s.occurrences) :
    let t := Theory.ofStatements ss
    ∀ k, k ≠ .classical →
      ((t.entails solver .credulous f k).value = true ↔
          (∀ v, f.eval v = true) ∧ (t.extensions solver k).value ≠ []) ∧
        ((t.entails solver .skeptical f k).value = true ↔
          (∀ v, f.eval v = true) ∨ (t.extensions solver k).value = []) := by
  intro t k hk
  have ht : t.IsTracked := isTracked_ofStatements ss
  have hatoms : ∀ a ∈ t.atoms, IsPlain a := forall_mem_atoms_ofStatements hplain
  have huntracked : ∀ a ∈ f.occurrences, a ∉ t.atoms := by
    intro a ha hmem
    obtain ⟨s, htold, has⟩ := mem_atoms_ofStatements.1 hmem
    exact hother a ha s htold has
  have hnative := entails_native_iff_of_untracked hs ht hf huntracked
  cases k with
  | classical => exact absurd rfl hk
  | native => exact hnative
  | renamed =>
    have hagrees : ∀ mode,
        (t.entails solver mode f .renamed).value = (t.entails solver mode f .native).value :=
      fun mode => (entailsUnder_agrees hs ht hatoms hf mode).symm
    rw [hagrees, hagrees, Ne, extensions_eq_nil_iff hs ht hatoms]
    exact hnative

/-- Facts that contradict each other and a rule whose consequent contradicts them say nothing about
another atom. -/
theorem entails_iff_of_untracked_contradiction :
    let ss : List Statement := [.formula (.atom "a"), .formula (.not (.atom "a")),
      .rule ⟨.atom "a", .atom "b", .and [.atom "b", .not (.atom "a")]⟩]
    let f : Formula := .atom "c"
    let g : Formula := .or [.atom "c", .not (.atom "c")]
    let t := Theory.ofStatements ss
    solve.Decides ∧ (∀ s ∈ ss, ∀ a ∈ s.occurrences, IsPlain a) ∧
      (∀ h ∈ [f, g], (∀ a ∈ h.occurrences, IsPlain a) ∧
        ∀ a ∈ h.occurrences, ∀ s ∈ ss, a ∉ s.occurrences) ∧
      ∀ k, k ≠ .classical →
        (t.entails solve .credulous f k).value = false ∧
          (t.entails solve .skeptical f k).value = false ∧
          (t.entails solve .credulous g k).value = true ∧
          (t.entails solve .skeptical g k).value = true := by
  intro ss f g t
  have hplain : ∀ s ∈ ss, ∀ a ∈ s.occurrences, IsPlain a := by
    decide
  have hfg : ∀ h ∈ [f, g], (∀ a ∈ h.occurrences, IsPlain a) ∧
      ∀ a ∈ h.occurrences, ∀ s ∈ ss, a ∉ s.occurrences := by
    decide
  refine ⟨solve_decides, hplain, hfg, fun k hk => ?_⟩
  obtain ⟨hf, hfother⟩ := hfg f (by simp)
  obtain ⟨hg, hgother⟩ := hfg g (by simp)
  have hfanswers := entails_iff_of_untracked solve_decides ss hplain hf hfother k hk
  have hganswers := entails_iff_of_untracked solve_decides ss hplain hg hgother k hk
  have hextensions : (t.extensions solve k).value ≠ [] := by
    cases k with
    | classical => exact absurd rfl hk
    | native =>
      intro h
      have hcount : (t.extensions solve .native).value.length = 1 := by
        cbv
      rw [h] at hcount
      cases hcount
    | renamed =>
      intro h
      have hcount : (t.extensions solve .renamed).value.length = 1 := by
        cbv
      rw [h] at hcount
      cases hcount
  have hnot : ¬∀ v, f.eval v = true := fun h => Bool.false_ne_true (h fun _ => false)
  have htautology : ∀ v, g.eval v = true := by
    intro v
    rw [Formula.eval_junction]
    show (v "c" || (!v "c" || false)) = true
    cases v "c" <;> rfl
  refine ⟨?_, ?_, hganswers.1.2 ⟨htautology, hextensions⟩, hganswers.2.2 (.inl htautology)⟩
  · exact Bool.eq_false_iff.2 fun h => hnot (hfanswers.1.1 h).1
  · exact Bool.eq_false_iff.2 fun h => (hfanswers.2.1 h).elim hnot hextensions

end Theory

end DefaultLogic
