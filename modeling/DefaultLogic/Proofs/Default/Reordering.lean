import DefaultLogic.Proofs.Default.Beliefs
import DefaultLogic.Proofs.Default.Stopping

/-!
# Order and repetition do not matter

Rules are told apart by their indices, atoms are tried in the order in which they first occur, and
every copy of a rule has to be chosen.  What is found is the same all the same: candidates with the
same atoms have extensions with the same beliefs.

* `Encoding.SameAnswers`: candidates with the same atoms have extensions that answer alike.
* `SameAnswers.minimalSets_perm`, `SameAnswers.shown_perm`: **then the same sets of atoms are
  minimal, and the visitors are shown extensions that answer alike, in some other order.**
* `SameContent.native`, `SameContent.renamed`: so it is for theories with the same rules and facts.
* `Theory.answers_of_sameElements`: **the order and the repetition of what a theory is told change
  neither the number of extensions nor an answer nor the minimal sets.**
-/

namespace DefaultLogic

open DefaultLogic.Sat

variable {T : Type} [GroundLogic T]

/-! ## Questions -/

theorem Mode.among_perm {α β : Type} {g : α → β} {xs ys : List α}
    (h : (xs.map g).Perm (ys.map g)) (mode : Mode) (p : β → Prop) :
    mode.Among xs (fun x => p (g x)) ↔ mode.Among ys fun y => p (g y) := by
  rw [← mode.among_map_iff g xs p, ← mode.among_map_iff g ys p]
  cases mode with
  | credulous => exact exists_congr fun b => and_congr_left fun _ => h.mem_iff
  | skeptical => exact forall_congr' fun b => imp_congr_left h.mem_iff

/-! ## Sets of atoms -/

/-- Those of the tracked atoms that are in a set, in the order in which they are tracked. -/
def inOrder (tracked S : List String) : List String := tracked.filter (· ∈ S)

section

variable {tracked S S' : List String}

theorem inOrder_sublist (tracked S : List String) : (inOrder tracked S).Sublist tracked :=
  List.filter_sublist

theorem sameElements_inOrder (h : S ⊆ tracked) : SameElements S (inOrder tracked S) := by
  intro a
  rw [inOrder, List.mem_filter, decide_eq_true_iff]
  exact (and_iff_right_of_imp fun ha => h ha).symm

theorem inOrder_eq (hnodup : tracked.Nodup) (hS : S.Sublist tracked) (h : SameElements S S') :
    inOrder tracked S' = S := by
  have hsub : S' ⊆ tracked := fun a ha => hS.subset ((h a).2 ha)
  have hsame := sameElements_inOrder hsub
  exact Subsets.eq_of_subset_subset hnodup (inOrder_sublist tracked S') hS
    (fun a ha => (h a).2 ((hsame a).2 ha)) (fun a ha => (hsame a).1 ((h a).1 ha))

end

def Report.family (r : Report) : Finset (Finset String) := (r.minimal.map List.toFinset).toFinset

namespace Encoding

/-- Whether two theories have the same atoms, and candidates with the same ones have accepted
extensions that answer alike. -/
structure SameAnswers (e : Encoding T) (tracked tracked' : List String) (t t' : DefaultTheory T) :
    Prop where
  nodup : tracked.Nodup
  nodup' : tracked'.Nodup
  atoms : SameElements tracked tracked'
  accepted {S S' : List String} : SameElements S S' →
    ((e.accepted tracked t S).map answers).Perm ((e.accepted tracked' t' S').map answers)

theorem mem_family_search_iff {σ : Type} {e : Encoding T} {tracked : List String}
    {t : DefaultTheory T} (hnodup : tracked.Nodup) {visit : Visitor T σ}
    (hvisit : ∀ x s, (visit x s).value.isDone = false) {s : σ} {F : Finset String} :
    F ∈ (e.search tracked t visit s).value.1.family ↔
      ∃ S, e.IsMinimal tracked t S ∧ S.toFinset = F := by
  rw [Report.family, List.mem_toFinset, List.mem_map]
  exact exists_congr fun S => and_congr_left fun _ => mem_minimal_search_iff hnodup hvisit

namespace SameAnswers

variable {e : Encoding T} {tracked tracked' S S' : List String} {t t' : DefaultTheory T}

theorem symm (h : e.SameAnswers tracked tracked' t t') : e.SameAnswers tracked' tracked t' t where
  nodup := h.nodup'
  nodup' := h.nodup
  atoms := h.atoms.symm
  accepted hS := (h.accepted hS.symm).symm

variable (h : e.SameAnswers tracked tracked' t t')

include h

theorem successful_iff (hS : SameElements S S') :
    e.Successful tracked t S ↔ e.Successful tracked' t' S' := by
  have hlength := (h.accepted hS).length_eq
  rw [List.length_map, List.length_map] at hlength
  refine not_congr ?_
  rw [← List.length_eq_zero_iff, hlength, List.length_eq_zero_iff]

theorem isMinimal (hmin : e.IsMinimal tracked t S) (hS' : S'.Sublist tracked')
    (hS : SameElements S S') : e.IsMinimal tracked' t' S' where
  sublist := hS'
  successful := (h.successful_iff hS).1 hmin.successful
  minimal M' hM' hsuccessful hsub := by
    have hsame : SameElements M' (inOrder tracked M') :=
      sameElements_inOrder fun a ha => (h.atoms a).2 (hM'.subset ha)
    have hsmaller : inOrder tracked M' ⊆ S := fun a ha => (hS a).2 (hsub ((hsame a).2 ha))
    have hall := hmin.minimal (inOrder tracked M') (inOrder_sublist tracked M')
      ((h.successful_iff hsame.symm).2 hsuccessful) hsmaller
    exact fun a ha => (hsame a).2 (hall ((hS a).2 ha))

theorem sameElements_of_sublist (hS : S.Sublist tracked) : SameElements S (inOrder tracked' S) :=
  sameElements_inOrder fun a ha => (h.atoms a).1 (hS.subset ha)

/-- **The minimal sets are the same**, each in the order in which its atoms are tracked. -/
theorem minimalSets_perm :
    (e.minimalSets tracked' t' (Subsets.bySize tracked')).Perm
      ((e.minimalSets tracked t (Subsets.bySize tracked)).map (inOrder tracked')) := by
  have hnodup : (e.minimalSets tracked t (Subsets.bySize tracked)).Nodup :=
    (Subsets.nodup_bySize h.nodup).filter _
  have hnodup' : (e.minimalSets tracked' t' (Subsets.bySize tracked')).Nodup :=
    (Subsets.nodup_bySize h.nodup').filter _
  refine (List.perm_ext_iff_of_nodup hnodup' (hnodup.map_on ?_)).2 fun S' => ?_
  · -- Sets that are the same in one order have the same atoms, so they are the same in the other.
    intro A hA B hB heq
    rw [mem_minimalSets_bySize] at hA hB
    have hsameA := h.sameElements_of_sublist hA.sublist
    have hsameB := h.sameElements_of_sublist hB.sublist
    rw [← inOrder_eq h.nodup hA.sublist hsameA, heq, inOrder_eq h.nodup hB.sublist hsameB]
  · rw [mem_minimalSets_bySize, List.mem_map]
    constructor
    · intro hmin'
      have hsame := h.symm.sameElements_of_sublist hmin'.sublist
      refine ⟨inOrder tracked S', mem_minimalSets_bySize.2 ?_, ?_⟩
      · exact h.symm.isMinimal hmin' (inOrder_sublist tracked S') hsame
      · exact inOrder_eq h.nodup' hmin'.sublist hsame
    · rintro ⟨S, hS, rfl⟩
      rw [mem_minimalSets_bySize] at hS
      exact h.isMinimal hS (inOrder_sublist tracked' S) (h.sameElements_of_sublist hS.sublist)

/-- **A search that shows all extensions shows such that answer alike**, in some other order. -/
theorem shown_perm :
    ((e.shown tracked t (Subsets.bySize tracked)).map answers).Perm
      ((e.shown tracked' t' (Subsets.bySize tracked')).map answers) := by
  rw [shown, shown, List.map_flatMap, List.map_flatMap]
  refine List.Perm.trans ?_ (h.minimalSets_perm.flatMap_right _).symm
  rw [List.flatMap_map]
  refine List.Perm.flatMap_left _ fun S hS => h.accepted ?_
  exact h.sameElements_of_sublist (mem_minimalSets_bySize.1 hS).sublist

theorem length_shown_eq :
    (e.shown tracked t (Subsets.bySize tracked)).length =
      (e.shown tracked' t' (Subsets.bySize tracked')).length := by
  have hlength := h.shown_perm.length_eq
  rwa [List.length_map, List.length_map] at hlength

theorem family_subset {σ τ : Type} {visit : Visitor T σ} {visit' : Visitor T τ}
    (hvisit : ∀ x s, (visit x s).value.isDone = false)
    (hvisit' : ∀ x s, (visit' x s).value.isDone = false) (s : σ) (s' : τ) :
    (e.search tracked t visit s).value.1.family ⊆
      (e.search tracked' t' visit' s').value.1.family := by
  intro F hF
  rw [mem_family_search_iff h.nodup hvisit] at hF
  rw [mem_family_search_iff h.nodup' hvisit']
  obtain ⟨S, hmin, rfl⟩ := hF
  have hsame := h.sameElements_of_sublist hmin.sublist
  refine ⟨inOrder tracked' S, h.isMinimal hmin (inOrder_sublist tracked' S) hsame, ?_⟩
  ext a
  rw [List.mem_toFinset, List.mem_toFinset, hsame a]

end SameAnswers

/-- **Searches that are not stopped report the same family of minimal sets.** -/
theorem SameAnswers.family_eq {σ τ : Type} {e : Encoding T} {tracked tracked' : List String}
    {t t' : DefaultTheory T} (h : e.SameAnswers tracked tracked' t t') {visit : Visitor T σ}
    {visit' : Visitor T τ} (hvisit : ∀ x s, (visit x s).value.isDone = false)
    (hvisit' : ∀ x s, (visit' x s).value.isDone = false) (s : σ) (s' : τ) :
    (e.search tracked t visit s).value.1.family =
      (e.search tracked' t' visit' s').value.1.family :=
  Finset.Subset.antisymm (h.family_subset hvisit hvisit' s s')
    (h.symm.family_subset hvisit' hvisit s' s)

end Encoding

/-! ## Theories -/

namespace Theory

/-- Whether two theories track the same atoms, for the same rules and the same facts. -/
structure SameContent (t t' : Theory) : Prop where
  isTracked : t.IsTracked
  isTracked' : t'.IsTracked
  atoms : SameElements t.atoms t'.atoms
  rules : SameElements t.rules t'.rules
  facts : SameElements t.facts t'.facts

theorem sameContent_ofStatements {ss ss' : List Statement} (h : SameElements ss ss') :
    SameContent (ofStatements ss) (ofStatements ss') where
  isTracked := isTracked_ofStatements ss
  isTracked' := isTracked_ofStatements ss'
  atoms a := by
    rw [mem_atoms_ofStatements, mem_atoms_ofStatements]
    exact exists_congr fun s => and_congr_left fun _ => h s
  rules r := by
    rw [mem_rules_ofStatements, mem_rules_ofStatements, h]
  facts f := by
    rw [mem_facts_ofStatements, mem_facts_ofStatements, h]

theorem sameElements_classicalAssertions {known known' inconsistent inconsistent' : List String}
    (hknown : SameElements known known') (h : SameElements inconsistent inconsistent') :
    SameElements (classicalAssertions known inconsistent)
      (classicalAssertions known' inconsistent') := by
  intro g
  rw [mem_classicalAssertions, mem_classicalAssertions]
  refine exists_congr fun a => and_congr (hknown a) (and_congr_left fun _ => ?_)
  rw [h a]

namespace SameContent

variable {solver : Solver} {t t' : Theory}

theorem native (hs : solver.Decides) (h : SameContent t t') :
    (Encoding.native solver).SameAnswers t.atoms t'.atoms (nativeTheory solver t)
      (nativeTheory solver t') where
  nodup := h.isTracked.nodup
  nodup' := h.isTracked'.nodup
  atoms := h.atoms
  accepted {S S'} hS := by
    have hpnnf : Formula.pnnf S' = Formula.pnnf S := by
      rw [← pnnf_sortedNames S', ← pnnf_sortedNames S, sortedNames_eq_iff.2 hS]
    have hreads' := reads_native hs t' S'
    rw [hpnnf] at hreads'
    exact Encoding.accepted_perm (reads_native hs t S) hreads' (h.rules.map _) h.facts hS

theorem renamed (hs : solver.Decides) (h : SameContent t t') (further : List String) :
    (Encoding.renamed solver).SameAnswers t.atoms t'.atoms (renamedTheory solver t further)
      (renamedTheory solver t' further) where
  nodup := h.isTracked.nodup
  nodup' := h.isTracked'.nodup
  atoms := h.atoms
  accepted {S S'} hS := by
    have hfurther := sameElements_classicalAssertions (SameElements.refl further) h.atoms
    have hown := sameElements_classicalAssertions h.atoms hS
    exact Encoding.accepted_perm (reads_renamed hs t further S) (reads_renamed hs t' further S')
      (h.rules.map _) (((h.facts.map _).append hfurther).append hown) hS

theorem classical (hs : solver.Decides) (h : SameContent t t') :
    ((t.classical solver).found.map answers).Perm ((t'.classical solver).found.map answers) := by
  have hreads := t.reads_classical hs
  have hreads' := t'.reads_classical hs
  exact Reading.answers_perm (fun _ => DefaultTheory.exists_reads_of_mem_found hreads)
    (fun _ => DefaultTheory.exists_reads_of_mem_found hreads')
    (DefaultTheory.found_perm hreads hreads' h.rules h.facts)

theorem count_eq (hs : solver.Decides) (h : SameContent t t') (k : Kind) :
    (t.count solver k).value = (t'.count solver k).value := by
  rw [count, count, Logged.value_map, Logged.value_map]
  cases k with
  | classical =>
    have hlength := (h.classical hs).length_eq
    rw [List.length_map, List.length_map] at hlength
    rw [extensions_classical_eq, extensions_classical_eq, List.length_map, List.length_map, hlength]
  | native =>
    rw [extensions, extensions, extensionsUnder_eq _ h.isTracked, extensionsUnder_eq _ h.isTracked',
      List.length_map, List.length_map]
    exact (h.native hs).length_shown_eq
  | renamed =>
    rw [extensions, extensions, extensionsUnder_eq _ h.isTracked, extensionsUnder_eq _ h.isTracked',
      List.length_map, List.length_map]
    exact (h.renamed hs []).length_shown_eq

theorem entails_eq (hs : solver.Decides) (h : SameContent t t') (mode : Mode) (f : Formula)
    (k : Kind) : (t.entails solver mode f k).value = (t'.entails solver mode f k).value := by
  rw [Bool.eq_iff_iff]
  cases k with
  | classical =>
    rw [entails_classical_iff, entails_classical_iff]
    exact Mode.among_perm (h.classical hs) mode fun answer => answer f = true
  | native =>
    refine (entailsUnder_iff (.native solver) h.isTracked mode f).trans ?_
    refine Iff.trans ?_ (entailsUnder_iff (.native solver) h.isTracked' mode f).symm
    exact Mode.among_perm (h.native hs).shown_perm mode fun answer => answer f = true
  | renamed =>
    refine (entailsUnder_iff (.renamed solver) h.isTracked mode f).trans ?_
    refine Iff.trans ?_ (entailsUnder_iff (.renamed solver) h.isTracked' mode f).symm
    exact Mode.among_perm (h.renamed hs f.atoms).shown_perm mode fun answer =>
      answer f.fullPnnf = true

end SameContent

/-- **The order in which a theory is told rules and facts does not matter, nor how often.**  Under
each kind of default logic there are as many extensions and every question has the same answer, and
searches that are not stopped report the same family of minimal sets. -/
theorem answers_of_sameElements {solver : Solver} (hs : solver.Decides) {ss ss' : List Statement}
    (h : SameElements ss ss') :
    let t := ofStatements ss
    let t' := ofStatements ss'
    (∀ k, (t.count solver k).value = (t'.count solver k).value) ∧
      (∀ mode f k, (t.entails solver mode f k).value = (t'.entails solver mode f k).value) ∧
      (∀ {σ τ : Type} (visit : Visitor (ParaconsistentTheory solver) σ)
        (visit' : Visitor (ParaconsistentTheory solver) τ) (s : σ) (s' : τ),
        (∀ x s, (visit x s).value.isDone = false) → (∀ x s, (visit' x s).value.isDone = false) →
          (t.searchReport (.native solver) visit s).value.1.family =
            (t'.searchReport (.native solver) visit' s').value.1.family) ∧
      ∀ {σ τ : Type} (visit : Visitor (ClassicalTheory solver) σ)
        (visit' : Visitor (ClassicalTheory solver) τ) (s : σ) (s' : τ),
        (∀ x s, (visit x s).value.isDone = false) → (∀ x s, (visit' x s).value.isDone = false) →
          (t.searchReport (.renamed solver) visit s).value.1.family =
            (t'.searchReport (.renamed solver) visit' s').value.1.family := by
  intro t t'
  have hcontent : SameContent t t' := sameContent_ofStatements h
  refine ⟨hcontent.count_eq hs, hcontent.entails_eq hs, ?_, ?_⟩
  · intro σ τ visit visit' s s' hvisit hvisit'
    exact (hcontent.native hs).family_eq hvisit hvisit' s s'
  · intro σ τ visit visit' s s' hvisit hvisit'
    exact (hcontent.renamed hs []).family_eq hvisit hvisit' s s'

/-- Facts in conflict that are told the other way round have their sets found the other way round,
and rules in conflict have two extensions even if one of them is repeated. -/
theorem answers_of_sameElements_conflict :
    let ss : List Statement := [.formula (.or [.atom "a", .atom "b"]), .formula (.not (.atom "a")),
      .formula (.not (.atom "b"))]
    let ss' : List Statement := [.formula (.not (.atom "b")), .formula (.not (.atom "a")),
      .formula (.or [.atom "a", .atom "b"]), .formula (.not (.atom "b"))]
    let flies : Statement := .rule ⟨.atom "bird", .atom "flies", .atom "flies"⟩
    let stays : Statement := .rule ⟨.atom "bird", .not (.atom "flies"), .not (.atom "flies")⟩
    let rs : List Statement := [.formula (.atom "bird"), flies, stays]
    let rs' : List Statement := [stays, flies, .formula (.atom "bird"), stays]
    let report (ss : List Statement) : Report :=
      ((ofStatements ss).searchReport (.native solve) Visitor.collect []).value.1
    solve.Decides ∧ SameElements ss ss' ∧ (report ss).minimal = [["a"], ["b"]] ∧
      (report ss').minimal = [["b"], ["a"]] ∧ (report ss').family = {{"a"}, {"b"}} ∧
      SameElements rs rs' ∧ ((ofStatements rs').count solve .classical).value = 2 ∧
      ((ofStatements rs').entails solve .credulous (.atom "flies") .classical).value = true ∧
      ((ofStatements rs').entails solve .skeptical (.atom "flies") .classical).value = false := by
  intro ss ss' flies stays rs rs' report
  have hss : SameElements ss ss' := by
    intro s
    simp only [ss, ss', List.mem_cons, List.not_mem_nil, or_false]
    tauto
  have hrs : SameElements rs rs' := by
    intro s
    simp only [rs, rs', List.mem_cons, List.not_mem_nil, or_false]
    tauto
  have hminimal : (report ss).minimal = [["a"], ["b"]] := by
    show ((ofStatements ss).searchReport (.native solve) Visitor.collect []).value.1.minimal = _
    cbv
  have hmore : ∀ (x : ParaconsistentTheory solve) s, (Visitor.collect x s).value.isDone = false :=
    fun _ _ => rfl
  obtain ⟨-, -, hfamily, -⟩ := answers_of_sameElements solve_decides hss
  obtain ⟨hcount, hentails, -⟩ := answers_of_sameElements solve_decides hrs
  refine ⟨solve_decides, hss, hminimal, ?_, ?_, hrs, ?_, ?_, ?_⟩
  · show ((ofStatements ss').searchReport (.native solve) Visitor.collect []).value.1.minimal = _
    cbv
  · rw [← hfamily Visitor.collect Visitor.collect [] [] hmore hmore, Report.family, hminimal]
    rfl
  · rw [← hcount]
    cbv
  · rw [← hentails]
    cbv
  · rw [← hentails]
    cbv

end Theory

end DefaultLogic
