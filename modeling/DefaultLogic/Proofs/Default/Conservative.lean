import DefaultLogic.Proofs.Default.Agreement
import DefaultLogic.Proofs.Default.Enumeration

/-!
# The native encoding is conservative

Without inconsistent atoms a normal form is true where the formula is.  So the empty candidate makes
a native theory the classical one, and an extension is accepted if it is satisfiable.  As soon as
the facts are satisfiable all extensions are, and if there is one, the search stops at this
candidate.

* `conservative`: a native theory without inconsistent atoms and a classical theory answer alike.
* `exists_accept?`: extensions of satisfiable facts are accepted, and nothing changes them.
* `searchWith_agrees_classical`: so the visitors of both searches meet the same extensions.
* `successful_nil`: with an extension the empty candidate is all that is tried.
* `extensions_native`: **a theory with satisfiable facts and a classical extension has its classical
  extensions and gives the classical answers; a theory without satisfiable classical extensions has
  to take atoms for inconsistent.**
-/

namespace DefaultLogic

open DefaultLogic.Sat

variable {solver : Solver}

/-! ## The simulation -/

theorem satisfies_map_pnnf_nil {v : Valuation} {fs : List Formula} :
    Satisfies v (fs.map (Formula.pnnf [])) ↔ Satisfies v fs := by
  rw [satisfies_map]
  exact forall₂_congr fun f _ => by rw [Formula.eval_pnnf_nil]

/-- A native theory without inconsistent atoms and a classical theory with the same formulas answer
alike. -/
def conservative (hs : solver.Decides) :
    Simulation (ParaconsistentTheory solver) (ClassicalTheory solver) id fun _ => True where
  Related x y := ∃ fs, (ParaconsistentTheory.reading hs []).Reads (Formula.pnnf []) fs x ∧
    (ClassicalTheory.reading hs).Reads id fs y
  add := by
    rintro x y f - ⟨fs, hx, hy⟩
    exact ⟨fs ++ [f], Reading.add _ f hx, Reading.add _ f hy⟩
  satisfiable := by
    rintro x y f? - ⟨fs, hx, hy⟩
    rw [Option.map_id]
    refine ⟨?_, fs, Reading.afterSatisfiable _ f? hx, Reading.afterSatisfiable _ f? hy⟩
    rw [Bool.eq_iff_iff, Reading.satisfiable_iff _ f? hx, id_eq, Reading.satisfiable_iff _ f? hy,
      List.map_id]
    exact exists_congr fun v => satisfies_map_pnnf_nil
  entails := by
    rintro x y f - ⟨fs, hx, hy⟩
    refine ⟨?_, fs, Reading.afterEntails _ f hx, Reading.afterEntails _ f hy⟩
    rw [Bool.eq_iff_iff, Reading.entails_iff _ f hx, id_eq, Reading.entails_iff _ f hy, List.map_id]
    refine forall_congr' fun v => imp_congr satisfies_map_pnnf_nil ?_
    rw [Formula.eval_pnnf_nil, id_eq]

namespace Theory

def nativeConsistent (solver : Solver) (t : Theory) : DefaultTheory (ParaconsistentTheory solver) :=
  (Encoding.native solver).restricted t.atoms (nativeTheory solver t) []

section

variable (hs : solver.Decides) {t : Theory}

theorem relates_nativeConsistent (t : Theory) :
    (conservative hs).Relates (t.nativeConsistent solver) (t.classical solver) where
  ground := ⟨t.facts, reads_native _ t [], t.reads_classical hs⟩
  rules := by
    show t.rules = (t.rules.map (Rule.map id)).map (Rule.map id)
    rw [List.map_map]
    exact (List.map_id _).symm
  known := fun _ _ => ⟨trivial, trivial, trivial⟩

include hs

/-! ## Accepted extensions -/

theorem reads_extensionBy (chosen : List Nat) :
    (ParaconsistentTheory.reading hs []).Reads (Formula.pnnf [])
      (t.formulasBy chosen) ((t.nativeConsistent solver).extensionBy chosen) := by
  have hconsequents : (t.nativeConsistent solver).consequents chosen = t.consequents chosen :=
    (consequents_encode (.native solver) t chosen).trans (List.map_id _)
  have hformulas :
      t.formulasBy chosen = t.facts ++ (t.nativeConsistent solver).consequents chosen :=
    congrArg (t.facts ++ ·) hconsequents.symm
  rw [hformulas]
  exact (ParaconsistentTheory.reading _ []).addAll _ (reads_native _ t [])

theorem isSome_accept?_iff (chosen : List Nat) :
    (Encoding.accept? [] ((t.nativeConsistent solver).extensionBy chosen)).isSome = true ↔
      ∃ v, Satisfies v (t.formulasBy chosen) := by
  rw [Reading.accept?_isSome_iff _ (reads_extensionBy hs chosen)]
  simp only [satisfies_map_pnnf_nil, List.not_mem_nil, false_imp_iff, implies_true, and_true]

theorem exists_accept? (hfacts : ∃ v, Satisfies v t.facts) {chosen : List Nat}
    (h : chosen ∈ (t.nativeConsistent solver).generators) :
    ∃ x, Encoding.accept? [] ((t.nativeConsistent solver).extensionBy chosen) = some x ∧
      (conservative hs).Related x ((t.classical solver).extensionBy chosen) := by
  have hrelates := t.relates_nativeConsistent hs
  rw [← hrelates.generators_eq, mem_generators_iff hs] at h
  obtain ⟨v, hv⟩ := h.2.exists_holdIn hfacts
  rw [← ofList_formulasBy] at hv
  obtain ⟨x, hx⟩ := Option.isSome_iff_exists.1 ((isSome_accept?_iff hs chosen).2 ⟨v, hv⟩)
  obtain ⟨fs, hnative, hclassical⟩ := hrelates.extensionBy _ chosen
  exact ⟨x, hx, fs, Reading.reads_of_accept? _ hnative hx, hclassical⟩

/-! ## Searches -/

section

variable {σ τ : Type} {visit : Visitor (ParaconsistentTheory solver) σ}
  {visit' : Visitor (ClassicalTheory solver) τ} {Gathered : σ → τ → Prop} {s : σ} {s' : τ}

/-- **The visitors of both searches meet the same extensions.** -/
theorem searchWith_agrees_classical (hfacts : ∃ v, Satisfies v t.facts)
    (hvisit : ∀ x y, (conservative hs).Related x y → ∀ s s', Gathered s s' →
      (visit x s).value.Agrees Gathered (visit' y s').value) (hgathered : Gathered s s') :
    ((Encoding.native solver).searchWith t.atoms (nativeTheory solver t) [] visit s).value.Agrees
      (fun p s' => Gathered p.2 s') ((t.classical solver).search visit' s').value := by
  refine (t.relates_nativeConsistent hs).search_agrees _ ?_ hgathered
  intro chosen hchosen p s' hp
  obtain ⟨x, hx, hrelated⟩ := exists_accept? hs hfacts hchosen
  have hagrees := hvisit x _ hrelated p.2 s' hp
  have haccept : Encoding.accept? ((Encoding.native solver).testers [])
      ((t.nativeConsistent solver).extensionBy chosen) = some x := hx
  rw [Encoding.value_accepting, haccept]
  dsimp only
  cases hv : (visit x p.2).value <;>
    cases hv' : (visit' ((t.classical solver).extensionBy chosen) s').value
  all_goals
    rw [hv, hv'] at hagrees
    exact hagrees

end

theorem successful_nil (hfacts : ∃ v, Satisfies v t.facts)
    (hextension : (t.extensions solver .classical).value ≠ []) :
    (Encoding.native solver).Successful t.atoms (nativeTheory solver t) [] := by
  rw [t.extensions_eq_map hs, Ne, List.map_eq_nil_iff,
    (t.relates_nativeConsistent hs).generators_eq] at hextension
  obtain ⟨chosen, hchosen⟩ := List.exists_mem_of_ne_nil _ hextension
  obtain ⟨x, hx, -⟩ := exists_accept? hs hfacts hchosen
  exact Encoding.successful_iff.2 ⟨chosen, x, Encoding.visits_of_mem_generators hchosen hx⟩

/-- **Visitors that agree on related extensions gather the same.** -/
theorem search_agrees_classical (hfacts : ∃ v, Satisfies v t.facts)
    (hextension : (t.extensions solver .classical).value ≠ []) {σ : Type}
    {visit : Visitor (ParaconsistentTheory solver) σ} {visit' : Visitor (ClassicalTheory solver) σ}
    (hvisit : ∀ x y, (conservative hs).Related x y → ∀ s,
      (visit x s).value.Agrees Eq (visit' y s).value) (s : σ) :
    ((Encoding.native solver).search t.atoms (nativeTheory solver t) visit s).value.2 =
      ((t.classical solver).search visit' s).value.state := by
  have hagrees : ∀ x y, (conservative hs).Related x y → ∀ s s', s = s' →
      (visit x s).value.Agrees Eq (visit' y s').value := by
    rintro x y hxy s _ rfl
    exact hvisit x y hxy s
  rw [Encoding.value_search_of_nil (successful_nil hs hfacts hextension)]
  exact (searchWith_agrees_classical hs hfacts hagrees rfl).state.1

/-! ## Answers -/

theorem extensions_eq_classical (hfacts : ∃ v, Satisfies v t.facts)
    (hextension : (t.extensions solver .classical).value ≠ []) :
    (t.extensions solver .native).value = (t.extensions solver .classical).value := by
  rw [extensions, Logged.value_map, extensions, Logged.value_map]
  refine search_agrees_classical hs hfacts hextension ?_ []
  rintro x y ⟨fs, hx, hy⟩ found
  show found ++ [GroundLogic.formulas x] = found ++ [GroundLogic.formulas y]
  rw [Reading.formulas _ hx, Reading.formulas _ hy]

theorem entails_eq_classical (hfacts : ∃ v, Satisfies v t.facts)
    (hextension : (t.extensions solver .classical).value ≠ []) (mode : Mode) (f : Formula) :
    (t.entails solver mode f .native).value = (t.entails solver mode f .classical).value := by
  rw [entails, entails, Logged.value_map]
  refine search_agrees_classical hs hfacts hextension ?_ _
  intro x y hxy b
  exact Visitor.entailment_agrees ((conservative _).entails trivial hxy).1 mode b

theorem nil_not_mem_minimal
    (hnone : ∀ fs ∈ (t.extensions solver .classical).value, ¬∃ v, Satisfies v fs) {σ : Type}
    (visit : Visitor (ParaconsistentTheory solver) σ) (s : σ) :
    [] ∉ (t.searchReport (.native solver) visit s).value.1.minimal := by
  intro hmem
  have hsuccessful := Encoding.successful_of_mem_minimal hmem
  obtain ⟨chosen, x, hsub, htest, haccept⟩ := Encoding.successful_iff.1 hsuccessful
  have hchosen : chosen ∈ (t.nativeConsistent solver).generators :=
    List.mem_filter.2 ⟨Subsets.mem_bySize.2 hsub, htest⟩
  rw [← (t.relates_nativeConsistent hs).generators_eq] at hchosen
  refine hnone (t.formulasBy chosen) ?_ ?_
  · rw [t.extensions_eq_map hs]
    exact List.mem_map_of_mem hchosen
  · exact (isSome_accept?_iff hs chosen).1 (Option.isSome_iff_exists.2 ⟨x, haccept⟩)

/-- **The native encoding is conservative.**  If the facts are satisfiable and there is a classical
extension, the native encoding has the classical extensions, in the same order, answers every
question as classical default logic does, and tries a single candidate, whenever its visitor stops.
If no classical extension is satisfiable, the empty set is not among the sets that it reports. -/
theorem extensions_native (t : Theory) :
    ((∃ v, Satisfies v t.facts) → (t.extensions solver .classical).value ≠ [] →
      (t.extensions solver .native).value = (t.extensions solver .classical).value ∧
        (∀ mode f, (t.entails solver mode f .native).value =
          (t.entails solver mode f .classical).value) ∧
        ∀ {σ : Type} (visit : Visitor (ParaconsistentTheory solver) σ) (s : σ),
          (t.searchReport (.native solver) visit s).value.1.candidates = 1) ∧
      ((∀ fs ∈ (t.extensions solver .classical).value, ¬∃ v, Satisfies v fs) →
        ∀ {σ : Type} (visit : Visitor (ParaconsistentTheory solver) σ) (s : σ),
          [] ∉ (t.searchReport (.native solver) visit s).value.1.minimal) := by
  refine ⟨fun hfacts hextension => ?_, nil_not_mem_minimal hs⟩
  refine ⟨extensions_eq_classical hs hfacts hextension,
    entails_eq_classical hs hfacts hextension, ?_⟩
  intro σ visit s
  show ((Encoding.native solver).search t.atoms (nativeTheory solver t) _ _).value.1.candidates = 1
  rw [Encoding.value_search_of_nil (successful_nil hs hfacts hextension)]

end

/-- Rules in conflict need no inconsistent atom, facts in conflict do. -/
theorem extensions_native_conflict :
    let t : Theory := Theory.ofContent [⟨.atom "bird", .atom "flies", .atom "flies"⟩,
      ⟨.atom "bird", .not (.atom "flies"), .not (.atom "flies")⟩] [.atom "bird"]
    let u : Theory := Theory.ofContent [⟨.atom "a", .atom "b", .atom "b"⟩]
      [.atom "a", .not (.atom "a")]
    solve.Decides ∧ (t.extensions solve .native).value =
        [[.atom "bird", .atom "flies"], [.atom "bird", .not (.atom "flies")]] ∧
      (t.entails solve .credulous (.atom "flies") .native).value = true ∧
      (t.entails solve .skeptical (.atom "flies") .native).value = false ∧
      (t.searchReport (.native solve) Visitor.exists? false).value.1.candidates = 1 ∧
      [] ∉ (u.searchReport (.native solve) Visitor.exists? false).value.1.minimal := by
  intro t u
  have hfacts : ∃ v, Satisfies v t.facts := ⟨fun _ => true, List.forall_mem_singleton.2 rfl⟩
  have hextensions : (t.extensions solve .classical).value =
      [[.atom "bird", .atom "flies"], [.atom "bird", .not (.atom "flies")]] := by
    cbv
  have hsome : (t.extensions solve .classical).value ≠ [] := by
    rw [hextensions]
    exact List.cons_ne_nil _ _
  have hnone : ∀ fs ∈ (u.extensions solve .classical).value, ¬∃ v, Satisfies v fs := by
    have hu : (u.extensions solve .classical).value = [[.atom "a", .not (.atom "a")]] := by
      cbv
    rw [hu]
    refine List.forall_mem_singleton.2 ?_
    rintro ⟨v, hv⟩
    have ha : v "a" = true := hv _ List.mem_cons_self
    have hna : (!v "a") = true := hv _ (List.mem_cons_of_mem _ List.mem_cons_self)
    exact Bool.not_ne_self (v "a") (hna.trans ha.symm)
  obtain ⟨hsame, hentails, hone⟩ := (t.extensions_native solve_decides).1 hfacts hsome
  refine ⟨solve_decides, hsame.trans hextensions, ?_, ?_, hone _ _,
    (u.extensions_native solve_decides).2 hnone _ _⟩
  · rw [hentails]
    cbv
  · rw [hentails]
    cbv

end Theory

end DefaultLogic
