import DefaultLogic.Proofs.Default.Beliefs
import DefaultLogic.Proofs.Default.MinimalSets

/-!
# Whether there is an extension

A classical theory is searched for an extension, and tells what it found.  A paraconsistent theory
always tells that there is one, since its facts are satisfiable once all their atoms may be
inconsistent.  This leaves out its rules: one that defeats itself leaves no extension, whatever
atoms may be inconsistent.

* `Encoding.successful_iff_exists_isExtension`: a candidate is successful when one of Reiter's
  extensions is acceptable.
* `Theory.extensions_native_ne_nil_iff`, `Theory.extensions_renamed_ne_nil_iff`: so extensions are
  listed exactly if that holds for some tracked atoms.
* `Theory.mem_minimal_iff_hasAcceptable`: and the minimal sets of such atoms are reported.
* `Theory.hasExtension_classical_iff`: **a classical theory tells whether extensions are listed.**
* `Theory.hasExtension_agrees`: **a paraconsistent theory is right when it tells that there is an
  extension if all rules are normal.**
* `Theory.hasExtension_of_defeated`: a rule that refutes what justifies it has none.
-/

namespace DefaultLogic

open DefaultLogic.Sat

/-! ## Candidates -/

namespace Encoding

variable {T : Type} [GroundLogic T] {R : Reading T} {m f : Formula → Formula} {e : Encoding T}
  {tracked S : List String} {t : DefaultTheory T} {facts testers : List Formula} {E : Beliefs}

theorem isAcceptable_map :
    IsAcceptable m (testers.map f) E ↔ IsAcceptable (m ∘ f) testers E := by
  have htests : (∀ g ∈ testers.map f, E (m g)) ↔ ∀ g ∈ testers, E (m (f g)) := List.forall_mem_map
  exact ⟨fun h => ⟨h.satisfiable, htests.1 h.tests⟩, fun h => ⟨h.satisfiable, htests.2 h.tests⟩⟩

/-- **A candidate is successful when one of Reiter's extensions is acceptable.** -/
theorem successful_iff_exists_isExtension
    (h : R.Reads m facts (e.restricted tracked t S).ground) :
    e.Successful tracked t S ↔ ∃ E, IsExtension (t.rules.map (Rule.map m)) (facts.map m) E ∧
      IsAcceptable m (e.testers S) E := by
  classical
  have hfound : ∀ E, E ∈ (e.restricted tracked t S).found.map (believed m) ↔
      IsExtension (t.rules.map (Rule.map m)) (facts.map m) E :=
    fun E => DefaultTheory.mem_map_believed_found h
  rw [Successful, Ne, ← List.map_eq_nil_iff (f := believed m), map_believed_accepted h,
    List.filter_eq_nil_iff]
  simp only [hfound, decide_eq_true_iff, not_forall, not_not, exists_prop]

end Encoding

namespace Theory

variable {solver : Solver} {t : Theory}

/-! ## Paraconsistent theories -/

/-- Whether beliefs are an extension of the theory, with its formulas taken through `m` and further
assertions, that is acceptable when the given atoms are tested. -/
def Accepts (t : Theory) (m : Formula → Formula) (assertions : List Formula)
    (inconsistent : List String) (E : Beliefs) : Prop :=
  IsExtension (t.rules.map (Rule.map m)) (t.facts.map m ++ assertions) E ∧
    Encoding.IsAcceptable m (inconsistent.map inconsistencyTester) E

def HasAcceptable (t : Theory) (m : Formula → Formula) (assertions : List Formula)
    (inconsistent : List String) : Prop :=
  ∃ E, t.Accepts m assertions inconsistent E

theorem accepts_native_iff (solver : Solver) (t : Theory) (S : List String) (E : Beliefs) :
    (IsExtension ((nativeTheory solver t).rules.map (Rule.map (Formula.pnnf S)))
          (t.facts.map (Formula.pnnf S)) E ∧
        Encoding.IsAcceptable (Formula.pnnf S) ((Encoding.native solver).testers S) E) ↔
      t.Accepts (Formula.pnnf S) [] S E := by
  have hrules : (nativeTheory solver t).rules = t.rules := List.map_id _
  rw [hrules, Accepts, List.append_nil]
  rfl

/-- What is asserted of the further atoms of a query is asserted as of the tracked ones. -/
theorem accepts_renamed_iff (solver : Solver) (t : Theory) (further : List String)
    {S : List String} (hS : S ⊆ t.atoms) (E : Beliefs) :
    (IsExtension ((renamedTheory solver t further).rules.map (Rule.map id))
          ((t.facts.map Formula.fullPnnf ++ classicalAssertions further t.atoms ++
            classicalAssertions t.atoms S).map id) E ∧
        Encoding.IsAcceptable id ((Encoding.renamed solver).testers S) E) ↔
      t.Accepts Formula.fullPnnf (classicalAssertions (t.atoms ++ further) S) S E := by
  have hrules : (renamedTheory solver t further).rules.map (Rule.map id) =
      t.rules.map (Rule.map Formula.fullPnnf) := List.map_id _
  have htesters : (Encoding.renamed solver).testers S =
      (S.map inconsistencyTester).map Formula.fullPnnf := (List.map_map ..).symm
  have hassertions : SameElements
      (t.facts.map Formula.fullPnnf ++ classicalAssertions further t.atoms ++
        classicalAssertions t.atoms S)
      (t.facts.map Formula.fullPnnf ++ classicalAssertions (t.atoms ++ further) S) := by
    intro g
    rw [List.append_assoc, List.mem_append, List.mem_append, List.mem_append,
      mem_classicalAssertions_append hS]
  rw [hrules, htesters, List.map_id]
  exact and_congr (isExtension_congr (SameElements.refl _) hassertions) Encoding.isAcceptable_map

theorem successful_native_iff (hs : solver.Decides) (t : Theory) (S : List String) :
    (Encoding.native solver).Successful t.atoms (nativeTheory solver t) S ↔
      t.HasAcceptable (Formula.pnnf S) [] S :=
  (Encoding.successful_iff_exists_isExtension (reads_native hs t S)).trans
    (exists_congr (accepts_native_iff solver t S))

theorem successful_renamed_iff (hs : solver.Decides) (t : Theory) (further : List String)
    {S : List String} (hS : S.Sublist t.atoms) :
    (Encoding.renamed solver).Successful t.atoms (renamedTheory solver t further) S ↔
      t.HasAcceptable Formula.fullPnnf (classicalAssertions (t.atoms ++ further) S) S :=
  (Encoding.successful_iff_exists_isExtension (reads_renamed hs t further S)).trans
    (exists_congr (accepts_renamed_iff solver t further hS.subset))

/-- **The native encoding lists extensions if some negations can be read so that there is an
acceptable one.** -/
theorem extensions_native_ne_nil_iff (hs : solver.Decides) (ht : t.IsTracked) :
    (t.extensions solver .native).value ≠ [] ↔
      ∃ S, S.Sublist t.atoms ∧ t.HasAcceptable (Formula.pnnf S) [] S := by
  rw [extensions, Logged.value_map]
  refine (Encoding.value_search_collect_ne_nil_iff ht.nodup).trans ?_
  exact exists_congr fun S => and_congr_right fun _ => successful_native_iff hs t S

/-- **The renaming encoding lists extensions if some atoms can be left out of those that are
asserted to be classical so that there is an acceptable one.** -/
theorem extensions_renamed_ne_nil_iff (hs : solver.Decides) (ht : t.IsTracked) :
    (t.extensions solver .renamed).value ≠ [] ↔
      ∃ S, S.Sublist t.atoms ∧
        t.HasAcceptable Formula.fullPnnf (classicalAssertions t.atoms S) S := by
  rw [extensions, Logged.value_map]
  refine (Encoding.value_search_collect_ne_nil_iff ht.nodup).trans ?_
  refine exists_congr fun S => and_congr_right fun hS => ?_
  have hsuccessful := successful_renamed_iff hs t [] hS
  rwa [List.append_nil] at hsuccessful

/-- **A search that is not stopped reports the minimal sets of tracked atoms under which one of
Reiter's extensions is acceptable**, under either encoding. -/
theorem mem_minimal_iff_hasAcceptable (hs : solver.Decides) (ht : t.IsTracked) (S : List String) :
    (∀ {σ : Type} (visit : Visitor (ParaconsistentTheory solver) σ) (s : σ),
        (∀ x s, (visit x s).value.isDone = false) →
          (S ∈ (t.searchReport (.native solver) visit s).value.1.minimal ↔
            Subsets.IsMinimal (fun S => t.HasAcceptable (Formula.pnnf S) [] S) t.atoms S)) ∧
      ∀ {σ : Type} (visit : Visitor (ClassicalTheory solver) σ) (s : σ),
        (∀ x s, (visit x s).value.isDone = false) →
          (S ∈ (t.searchReport (.renamed solver) visit s).value.1.minimal ↔
            Subsets.IsMinimal (fun S => t.HasAcceptable Formula.fullPnnf
              (classicalAssertions t.atoms S) S) t.atoms S) := by
  constructor
  · intro σ visit s hvisit
    rw [← Subsets.isMinimal_congr fun S _ => successful_native_iff hs t S,
      ← Encoding.isMinimal_iff]
    exact Encoding.mem_minimal_search_iff ht.nodup hvisit
  · intro σ visit s hvisit
    have hsuccessful := Subsets.isMinimal_congr (S := S) fun _ hS =>
      successful_renamed_iff hs t [] hS
    rw [List.append_nil] at hsuccessful
    rw [← hsuccessful, ← Encoding.isMinimal_iff]
    exact Encoding.mem_minimal_search_iff ht.nodup hvisit

/-! ## Answers -/

theorem count_pos_iff (solver : Solver) (t : Theory) (k : Kind) :
    0 < (t.count solver k).value ↔ (t.extensions solver k).value ≠ [] := by
  rw [count, Logged.value_map]
  exact List.length_pos_iff

theorem hasExtension_classical_iff (solver : Solver) (t : Theory) :
    (t.hasExtension solver .classical).value = true ↔
      (t.extensions solver .classical).value ≠ [] := by
  rw [hasExtension, Logged.value_map, DefaultTheory.value_search_exists, extensions_classical_eq,
    DefaultTheory.found, Ne, Ne, List.map_eq_nil_iff, List.map_eq_nil_iff]

theorem hasExtension_of_ne_classical (solver : Solver) (t : Theory) {k : Kind}
    (hk : k ≠ .classical) : (t.hasExtension solver k).value = true := by
  cases k with
  | classical => exact absurd rfl hk
  | native | renamed => rfl

theorem extensions_ne_nil_of_isNormal (hs : solver.Decides) (ht : t.IsTracked)
    (hplain : ∀ a ∈ t.atoms, IsPlain a) (hnormal : ∀ r ∈ t.rules, r.isNormal = true)
    (hfacts : ∀ f ∈ t.facts, f.MinOperands 1) {k : Kind} (hk : k ≠ .classical) :
    (t.extensions solver k).value ≠ [] := by
  obtain ⟨S, hS, -⟩ := Subsets.exists_isMinimal ht.nodup (List.Sublist.refl t.atoms)
    (satisfiableUnder_atoms ht hfacts)
  exact extensions_ne_nil hs ht hplain hnormal hS hk

/-- **A theory is right about whether it has an extension if it is classical or all its rules are
normal.**  The count is positive exactly if extensions are listed, and a classical theory tells that
it has one exactly then.  A paraconsistent theory always tells so.  It is right exactly if, for some
tracked atoms that may be inconsistent, an extension is acceptable; this is the case if all rules
are normal and no junction of the facts is empty. -/
theorem hasExtension_agrees {solver : Solver} (hs : solver.Decides) (ss : List Statement) :
    let t := Theory.ofStatements ss
    (∀ k, 0 < (t.count solver k).value ↔ (t.extensions solver k).value ≠ []) ∧
      ((t.hasExtension solver .classical).value = true ↔
        (t.extensions solver .classical).value ≠ []) ∧
      (∀ k, k ≠ .classical → (t.hasExtension solver k).value = true) ∧
      ((t.extensions solver .native).value ≠ [] ↔
        ∃ S, S.Sublist t.atoms ∧ t.HasAcceptable (Formula.pnnf S) [] S) ∧
      ((t.extensions solver .renamed).value ≠ [] ↔ ∃ S, S.Sublist t.atoms ∧
        t.HasAcceptable Formula.fullPnnf (classicalAssertions t.atoms S) S) ∧
      ((∀ s ∈ ss, ∀ a ∈ s.occurrences, IsPlain a) → (∀ r, .rule r ∈ ss → r.isNormal = true) →
        (∀ f ∈ t.facts, f.MinOperands 1) →
          ∀ k, (t.hasExtension solver k).value = true ↔ (t.extensions solver k).value ≠ []) := by
  intro t
  have ht : t.IsTracked := isTracked_ofStatements ss
  refine ⟨t.count_pos_iff solver, t.hasExtension_classical_iff solver,
    fun k => t.hasExtension_of_ne_classical solver, extensions_native_ne_nil_iff hs ht,
    extensions_renamed_ne_nil_iff hs ht, ?_⟩
  intro hplain hnormal hfacts k
  by_cases hk : k = .classical
  · subst hk
    exact t.hasExtension_classical_iff solver
  · have hatoms : ∀ a ∈ t.atoms, IsPlain a := forall_mem_atoms_ofStatements hplain
    have hrules : ∀ r ∈ t.rules, r.isNormal = true :=
      fun r hr => hnormal r (mem_rules_ofStatements.1 hr)
    exact iff_of_true (t.hasExtension_of_ne_classical solver hk)
      (extensions_ne_nil_of_isNormal hs ht hatoms hrules hfacts hk)

/-- Facts in conflict and two normal rules in conflict have extensions in every logic. -/
theorem hasExtension_agrees_conflict :
    let ss : List Statement := [.formula (.atom "bird"), .formula (.not (.atom "bird")),
      .rule ⟨.atom "bird", .atom "flies", .atom "flies"⟩,
      .rule ⟨.atom "bird", .not (.atom "flies"), .not (.atom "flies")⟩]
    let t := Theory.ofStatements ss
    solve.Decides ∧ (∀ s ∈ ss, ∀ a ∈ s.occurrences, IsPlain a) ∧
      (∀ r, .rule r ∈ ss → r.isNormal = true) ∧ (∀ f ∈ t.facts, f.MinOperands 1) ∧
      ∀ k, (t.hasExtension solve k).value = true ∧ (t.extensions solve k).value ≠ [] := by
  intro ss t
  have hplain : ∀ s ∈ ss, ∀ a ∈ s.occurrences, IsPlain a := by
    decide
  have hnormal : ∀ r, .rule r ∈ ss → r.isNormal = true := by
    intro r hr
    have hrules : r = ⟨.atom "bird", .atom "flies", .atom "flies"⟩ ∨
        r = ⟨.atom "bird", .not (.atom "flies"), .not (.atom "flies")⟩ := by
      simpa [ss] using hr
    rcases hrules with rfl | rfl <;> rfl
  have hfacts : ∀ f ∈ t.facts, f.MinOperands 1 :=
    List.forall_mem_cons.2 ⟨.atom _, List.forall_mem_singleton.2 (.not (.atom _))⟩
  obtain ⟨-, -, hparaconsistent, -, -, hagrees⟩ := hasExtension_agrees solve_decides ss
  refine ⟨solve_decides, hplain, hnormal, hfacts, fun k => ?_⟩
  have htrue : (t.hasExtension solve k).value = true := by
    cases k with
    | classical => cbv
    | native => exact hparaconsistent _ (by decide)
    | renamed => exact hparaconsistent _ (by decide)
  exact ⟨htrue, (hagrees hplain hnormal hfacts k).1 htrue⟩

/-- A rule that refutes what justifies it leaves no extension, and a paraconsistent theory still
tells that there is one. -/
theorem hasExtension_of_defeated :
    let t := Theory.ofStatements [.formula (.atom "T"),
      .rule ⟨.atom "T", .not (.atom "p"), .atom "p"⟩]
    ((t.hasExtension solve .native).value = true ∧ (t.extensions solve .native).value = [] ∧
        (t.count solve .native).value = 0) ∧
      (t.hasExtension solve .renamed).value = true ∧ (t.extensions solve .renamed).value = [] ∧
        (t.count solve .renamed).value = 0 := by
  intro t
  refine ⟨⟨rfl, ?_, ?_⟩, rfl, ?_, ?_⟩ <;> cbv

end Theory

end DefaultLogic
