import DefaultLogic.Default.Reiter
import DefaultLogic.Proofs.Theory.Ground

/-!
# Grounded lists of rules

Rules are *grounded* in facts when each has its prerequisite entailed by the facts and the
consequents of the rules before it.  All formulas are taken through a translation `m`.

* `Grounded.mem_of_isSaturated`: every saturated set of beliefs has the consequents of grounded
  rules.
* `conclusions_iff`: **the least saturated set is what the facts and the consequents of grounded
  rules entail, as soon as no further rule applies.**
-/

namespace DefaultLogic

theorem Entails.mono {fs gs : List Formula} {f : Formula} (h : Entails fs f) (hsub : fs ⊆ gs) :
    Entails gs f :=
  fun v hv => h v fun g hg => hv g (hsub hg)

theorem Entails.of_mem {fs : List Formula} {f : Formula} (h : f ∈ fs) : Entails fs f :=
  fun _ hv => hv f h

variable {m : Formula → Formula} {facts : List Formula}

def basis (facts : List Formula) (applied : List (Rule × Nat)) : List Formula :=
  facts ++ applied.map fun r => r.1.consequent

theorem basis_append (facts : List Formula) (as bs : List (Rule × Nat)) :
    basis facts (as ++ bs) = basis facts as ++ bs.map fun r => r.1.consequent := by
  rw [basis, basis, List.map_append, List.append_assoc]

theorem basis_subset {as bs : List (Rule × Nat)} (h : as ⊆ bs) :
    basis facts as ⊆ basis facts bs := by
  intro f hf
  rcases List.mem_append.1 hf with hf | hf
  · exact List.mem_append_left _ hf
  · obtain ⟨r, hr, rfl⟩ := List.mem_map.1 hf
    exact List.mem_append_right _ (List.mem_map.2 ⟨r, h hr, rfl⟩)

/-- Whether the facts and the rules applied so far entail the prerequisite of a rule. -/
def Applicable (m : Formula → Formula) (facts : List Formula) (applied : List (Rule × Nat))
    (r : Rule) : Prop :=
  Entails ((basis facts applied).map m) (m r.prerequisite)

theorem Applicable.mono {as bs : List (Rule × Nat)} {r : Rule} (h : Applicable m facts as r)
    (hsub : as ⊆ bs) : Applicable m facts bs r :=
  Entails.mono h (List.map_subset m (basis_subset hsub))

/-- Each rule is applicable after the ones before it. -/
inductive Grounded (m : Formula → Formula) (facts : List Formula) : List (Rule × Nat) → Prop
  | nil : Grounded m facts []
  | snoc {as : List (Rule × Nat)} {r : Rule × Nat} (h : Grounded m facts as)
      (hr : Applicable m facts as r.1) : Grounded m facts (as ++ [r])

theorem Grounded.applicable {as : List (Rule × Nat)} (h : Grounded m facts as) {r : Rule × Nat}
    (hr : r ∈ as) : Applicable m facts as r.1 := by
  induction h with
  | nil => cases hr
  | @snoc as s h hs ih =>
    have hsub : as ⊆ as ++ [s] := List.subset_append_left as [s]
    rcases List.mem_append.1 hr with hr | hr
    · exact (ih hr).mono hsub
    · obtain rfl := List.mem_singleton.1 hr
      exact hs.mono hsub

/-! ## Saturated sets -/

variable {rules : List Rule} {E B : Beliefs}

/-- Whether a rule is one of a theory and is justified by beliefs. -/
def Justified (m : Formula → Formula) (rules : List Rule) (E : Beliefs) (r : Rule) : Prop :=
  r ∈ rules ∧ E.ConsistentWith (m r.justification)

theorem Grounded.mem_of_isSaturated (hB : IsSaturated (rules.map (Rule.map m)) (facts.map m) E B)
    {as : List (Rule × Nat)} (h : Grounded m facts as) (has : ∀ r ∈ as, Justified m rules E r.1) :
    ∀ f ∈ (basis facts as).map m, B f := by
  induction h with
  | nil =>
    intro f hf
    rw [basis, List.map_nil, List.append_nil] at hf
    exact hB.facts f hf
  | @snoc as r h hr ih =>
    have hold := ih fun s hs => has s (List.mem_append_left _ hs)
    intro f hf
    rw [basis_append, List.map_append] at hf
    rcases List.mem_append.1 hf with hf | hf
    · exact hold f hf
    · obtain rfl : f = m r.1.consequent := List.mem_singleton.1 hf
      obtain ⟨hmem, hjustified⟩ := has r (List.mem_append_right _ List.mem_cons_self)
      have hpre : B (m r.1.prerequisite) :=
        hB.closed _ fun v hv => hr v fun g hg => hv g (hold g hg)
      exact hB.rules _ (List.mem_map_of_mem hmem) hpre hjustified

/-- **The least saturated set is what grounded rules conclude, as soon as no further rule
applies.** -/
theorem conclusions_iff {as : List (Rule × Nat)} (h : Grounded m facts as)
    (has : ∀ r ∈ as, Justified m rules E r.1)
    (hall : ∀ r, Justified m rules E r → Applicable m facts as r → ∃ i, (r, i) ∈ as) (f : Formula) :
    conclusions (rules.map (Rule.map m)) (facts.map m) E f ↔
      Entails ((basis facts as).map m) f := by
  constructor
  · intro hf
    refine hf _ ⟨?_, ?_, ?_⟩
    · intro g hg
      rw [List.mem_map] at hg
      obtain ⟨g, hg, rfl⟩ := hg
      exact Entails.of_mem (List.mem_map_of_mem (List.mem_append_left _ hg))
    · exact fun g hg v hv => hg v fun k hk => hk v hv
    · intro r hr hpre hjustified
      obtain ⟨s, hs, rfl⟩ := List.mem_map.1 hr
      obtain ⟨i, hi⟩ := hall s ⟨hs, hjustified⟩ hpre
      refine Entails.of_mem (List.mem_map_of_mem (List.mem_append_right _ ?_))
      exact List.mem_map.2 ⟨(s, i), hi, rfl⟩
  · intro hf B hB
    exact hB.closed f fun v hv => hf v fun g hg => hv g (h.mem_of_isSaturated hB has g hg)

end DefaultLogic
