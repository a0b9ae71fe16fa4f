import DefaultLogic.Default.Encoding
import DefaultLogic.Proofs.Formula.NormalForm
import DefaultLogic.Proofs.Theory.Ground

/-!
# Models of the two encodings

The native encoding renames the negations of the inconsistent atoms only.  The renaming encoding
renames all negations, and asserts that the other atoms are classical.  As long as names are plain,
models of the one and models of the other match.

* `matches_self`, `matches_renamedValuation`: matching valuations.
* `Matches.eval_fullPnnf`: **under matching valuations the two normal forms have the same truth
  value.**
* `satisfiable_iff_renamed`, `entails_iff_renamed`: so the encodings agree on what is satisfiable
  and on what is entailed.
-/

namespace DefaultLogic

variable {known inconsistent : List String} {v w : Valuation}

/-! ## Assertions -/

/-- The assertions that all known atoms but the given ones are classical. -/
def classicalAssertions (known inconsistent : List String) : List Formula :=
  (known.filter (· ∉ inconsistent)).map classicalAssertion

theorem eval_classicalAssertion (w : Valuation) (a : String) :
    (classicalAssertion a).eval w = true ↔ w (negatedName a) = !w a := by
  show (w a == !w (negatedName a)) = true ↔ _
  cases w a <;> cases w (negatedName a) <;> decide

theorem satisfies_classicalAssertions :
    Satisfies w (classicalAssertions known inconsistent) ↔
      ∀ a ∈ known, a ∉ inconsistent → w (negatedName a) = !w a := by
  refine List.forall_mem_map.trans (forall_congr' fun a => ?_)
  rw [List.mem_filter, decide_eq_true_iff, eval_classicalAssertion, and_imp]

/-! ## Matching valuations -/

/-- Whether a valuation of renamed negations matches one where only the negations of inconsistent
atoms are renamed. -/
structure Matches (known inconsistent : List String) (v w : Valuation) : Prop where
  atom : ∀ a ∈ known, w a = v a
  negation : ∀ a ∈ known, w (negatedName a) = if a ∈ inconsistent then v (negatedName a) else !v a

/-- **Under matching valuations the two normal forms have the same truth value.** -/
theorem Matches.eval_fullPnnf (h : Matches known inconsistent v w) {f : Formula}
    (hf : f.occurrences ⊆ known) : (f.pnnf inconsistent).eval v = f.fullPnnf.eval w := by
  have hstyles : (NegationStyle.paraconsistent inconsistent).keepsInternal =
      NegationStyle.full.keepsInternal := rfl
  refine Formula.eval_push_congr hstyles ?_ true
  intro a ha positive
  have hatom := h.atom a (hf ha)
  have hnegation := h.negation a (hf ha)
  cases positive with
  | true => exact hatom.symm
  | false =>
    rw [Formula.eval_literal_false]
    exact hnegation.symm

theorem Matches.satisfies_iff (h : Matches known inconsistent v w) {fs : List Formula}
    (hfs : ∀ f ∈ fs, f.occurrences ⊆ known) :
    Satisfies v (fs.map (Formula.pnnf inconsistent)) ↔ Satisfies w (fs.map Formula.fullPnnf) := by
  rw [satisfies_map, satisfies_map]
  refine forall₂_congr fun f hf => ?_
  rw [h.eval_fullPnnf (hfs f hf)]

theorem Matches.satisfies_classicalAssertions (h : Matches known inconsistent v w) :
    Satisfies w (classicalAssertions known inconsistent) := by
  rw [DefaultLogic.satisfies_classicalAssertions]
  intro a ha hmem
  rw [h.negation a ha, if_neg hmem, h.atom a ha]

theorem matches_self (h : Satisfies w (classicalAssertions known inconsistent)) :
    Matches known inconsistent w w where
  atom _ _ := rfl
  negation a ha := by
    split
    · rfl
    · next hmem => exact satisfies_classicalAssertions.1 h a ha hmem

/-- The valuation that gives the renamed negations of the other atoms their classical value. -/
def renamedValuation (known inconsistent : List String) (v : Valuation) : Valuation := fun name =>
  match known.find? fun a => a ∉ inconsistent ∧ negatedName a = name with
  | some a => !v a
  | none => v name

/-- Every valuation has a match: since names are plain, no known atom is a renamed negation. -/
theorem matches_renamedValuation (hplain : ∀ a ∈ known, IsPlain a) (inconsistent : List String)
    (v : Valuation) : Matches known inconsistent v (renamedValuation known inconsistent v) where
  atom a ha := by
    have hnone : known.find? (fun b => b ∉ inconsistent ∧ negatedName b = a) = none := by
      rw [List.find?_eq_none]
      intro b _ hb
      exact hplain a ha b (of_decide_eq_true hb).2.symm
    rw [renamedValuation, hnone]
  negation a ha := by
    rw [renamedValuation]
    split
    · next b hb =>
      have hfound := List.find?_some hb
      rw [decide_eq_true_iff] at hfound
      obtain ⟨hmem, hname⟩ := hfound
      obtain rfl := negatedName_injective hname
      rw [if_neg hmem]
    · next hnone =>
      have hnot := List.find?_eq_none.1 hnone a ha
      rw [decide_eq_true_iff, and_iff_left rfl, Classical.not_not] at hnot
      rw [if_pos hnot]

/-! ## Agreement -/

section

variable {fs : List Formula} (hplain : ∀ a ∈ known, IsPlain a)
  (hfs : ∀ f ∈ fs, f.occurrences ⊆ known)

include hplain hfs

theorem satisfiable_iff_renamed :
    (∃ v, Satisfies v (fs.map (Formula.pnnf inconsistent))) ↔
      ∃ w, Satisfies w (fs.map Formula.fullPnnf) ∧
        Satisfies w (classicalAssertions known inconsistent) := by
  constructor
  · rintro ⟨v, hv⟩
    have h := matches_renamedValuation hplain inconsistent v
    exact ⟨_, (h.satisfies_iff hfs).1 hv, h.satisfies_classicalAssertions⟩
  · rintro ⟨w, hw, hassert⟩
    exact ⟨w, ((matches_self hassert).satisfies_iff hfs).2 hw⟩

theorem entails_iff_renamed {f : Formula} (hf : f.occurrences ⊆ known) :
    Entails (fs.map (Formula.pnnf inconsistent)) (f.pnnf inconsistent) ↔
      ∀ w, Satisfies w (fs.map Formula.fullPnnf) →
        Satisfies w (classicalAssertions known inconsistent) → f.fullPnnf.eval w = true := by
  constructor
  · intro h w hw hassert
    have hmatch := matches_self hassert
    rw [← hmatch.eval_fullPnnf hf]
    exact h w ((hmatch.satisfies_iff hfs).2 hw)
  · intro h v hv
    have hmatch := matches_renamedValuation hplain inconsistent v
    rw [hmatch.eval_fullPnnf hf]
    exact h _ ((hmatch.satisfies_iff hfs).1 hv) hmatch.satisfies_classicalAssertions

end

end DefaultLogic
