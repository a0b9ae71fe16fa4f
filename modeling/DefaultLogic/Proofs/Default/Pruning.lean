import DefaultLogic.Proofs.Default.Accepted
import DefaultLogic.Proofs.Default.Statements
import Mathlib.Computability.Primrec.List
import Mathlib.Data.List.Permutation
import Mathlib.Data.Set.Card

/-!
# Pruning finds the minimal sets

The search leaves out the supersets of the sets that succeeded so far.  A minimal successful set
that is properly contained in a candidate is smaller, so it has been met before the candidate.

* `exists_isMinimal`: below every successful set there is a minimal one.
* `exists_met_iff`: **a candidate is left out exactly when it properly contains a minimal set.**
* `value_tryCandidate`, `exists_report_of_visitList`: what one candidate and what the remaining ones
  change.
* `exists_report_of_search`: **whenever a visitor is done, it is shown the accepted extensions of
  the minimal sets in order until then.**
* `searchReport_minimal`: **the report lists the minimal sets in order, the visitor gets their
  accepted extensions, and the candidates that count are those that properly contain no minimal
  set.**
-/

namespace DefaultLogic

open DefaultLogic.Sat

open Classical in
theorem length_eq_ncard {α : Type} {xs : List α} {P : α → Prop} (hnodup : xs.Nodup)
    (h : ∀ a, a ∈ xs ↔ P a) : xs.length = Set.ncard {a | P a} := by
  have hset : {a | P a} = (xs.toFinset : Set α) := by
    ext a
    rw [List.coe_toFinset]
    exact (h a).symm
  rw [hset, Set.ncard_coe_finset, List.toFinset_card_of_nodup hnodup]

namespace Encoding

variable {T σ : Type} [GroundLogic T] (e : Encoding T) (tracked : List String) (t : DefaultTheory T)

/-! ## Minimal sets -/

structure IsMinimal (S : List String) : Prop where
  sublist : S.Sublist tracked
  successful : e.Successful tracked t S
  minimal : ∀ M, M.Sublist tracked → e.Successful tracked t M → M ⊆ S → S ⊆ M

/-- A set of tracked atoms that properly contains no minimal successful set. -/
structure IsTried (S : List String) : Prop where
  sublist : S.Sublist tracked
  subset : ∀ M, e.IsMinimal tracked t M → M ⊆ S → S ⊆ M

variable {e tracked t}

theorem isMinimal_iff {S : List String} :
    e.IsMinimal tracked t S ↔ Subsets.IsMinimal (e.Successful tracked t) tracked S :=
  ⟨fun h => ⟨h.sublist, h.successful, h.minimal⟩, fun h => ⟨h.sublist, h.holds, h.minimal⟩⟩

theorem exists_isMinimal (hnodup : tracked.Nodup) {S : List String} (hS : S.Sublist tracked)
    (hsuccess : e.Successful tracked t S) : ∃ M, e.IsMinimal tracked t M ∧ M ⊆ S := by
  obtain ⟨M, hM, hMS⟩ := Subsets.exists_isMinimal hnodup hS hsuccess
  exact ⟨M, isMinimal_iff.2 hM, hMS⟩

theorem IsMinimal.isTried {S : List String} (h : e.IsMinimal tracked t S) : e.IsTried tracked t S :=
  ⟨h.sublist, fun M hM hMS => h.minimal M hM.sublist hM.successful hMS⟩

theorem IsTried.isMinimal_iff (hnodup : tracked.Nodup) {S : List String}
    (h : e.IsTried tracked t S) : e.IsMinimal tracked t S ↔ e.Successful tracked t S := by
  constructor
  · intro hmin
    exact hmin.successful
  · intro hsuccess
    refine ⟨h.sublist, hsuccess, ?_⟩
    intro M hM hMs hMS
    obtain ⟨N, hN, hNM⟩ := exists_isMinimal hnodup hM hMs
    exact List.Subset.trans (h.subset N hN (List.Subset.trans hNM hMS)) hNM

theorem IsTried.eq_nil (h : e.IsMinimal tracked t []) {S : List String}
    (hS : e.IsTried tracked t S) : S = [] :=
  List.subset_nil.1 (hS.subset [] h (List.nil_subset S))

theorem setOf_isTried_eq (hnodup : tracked.Nodup) (h : e.Successful tracked t []) :
    {S | e.IsTried tracked t S} = {[]} := by
  have htried : e.IsTried tracked t [] := ⟨List.nil_sublist _, fun M _ _ => List.nil_subset M⟩
  have hmin := (htried.isMinimal_iff hnodup).2 h
  refine Set.eq_singleton_iff_unique_mem.2 ⟨htried, fun S hS => IsTried.eq_nil hmin hS⟩

/-! ## One candidate -/

section

variable {before after : List (List String)} {S : List String}

theorem mem_of_ssubset (hnodup : tracked.Nodup)
    (hsplit : before ++ S :: after = Subsets.bySize tracked) {M : List String}
    (hM : M.Sublist tracked) (hMS : M ⊆ S) (hSM : ¬S ⊆ M) : M ∈ before := by
  have horder := Subsets.pairwise_bySize (Subsets.pairwise_idxOf hnodup)
  have hmem : ∀ {A : List String}, A ∈ before ++ S :: after ↔ A.Sublist tracked := by
    rw [hsplit]
    exact Subsets.mem_bySize
  have hS : S.Sublist tracked := hmem.1 (List.mem_append_right _ List.mem_cons_self)
  have hlt := Subsets.length_lt_of_ssubset hnodup hM hS hMS hSM
  rcases List.mem_append.1 (hmem.2 hM) with h | h
  · exact h
  · rw [← hsplit, List.pairwise_append, List.pairwise_cons] at horder
    rcases List.mem_cons.1 h with rfl | h
    · exact absurd hlt (Nat.lt_irrefl _)
    · have hle := (horder.2.1.1 M h).length_le
      omega

theorem not_mem_before (hnodup : tracked.Nodup)
    (hsplit : before ++ S :: after = Subsets.bySize tracked) : S ∉ before := by
  have horder := Subsets.pairwise_bySize (Subsets.pairwise_idxOf hnodup)
  rw [← hsplit, List.pairwise_append] at horder
  intro hS
  exact Subsets.not_before_self _ S (horder.2.2 S hS S List.mem_cons_self)

/-- **A candidate contains a minimal set that was met before exactly when it properly contains some
minimal set.** -/
theorem exists_met_iff (hnodup : tracked.Nodup)
    (hsplit : before ++ S :: after = Subsets.bySize tracked) :
    (∃ M ∈ before, e.IsMinimal tracked t M ∧ M ⊆ S) ↔ ¬e.IsTried tracked t S := by
  have hS : S.Sublist tracked :=
    Subsets.mem_bySize.1 (hsplit ▸ List.mem_append_right _ List.mem_cons_self)
  constructor
  · rintro ⟨M, hmem, hM, hMS⟩ htried
    have heq := Subsets.eq_of_subset_subset hnodup hM.sublist hS hMS (htried.subset M hM hMS)
    exact not_mem_before hnodup hsplit (heq ▸ hmem)
  · intro hclosed
    refine Classical.byContradiction fun hnone => hclosed ⟨hS, fun M hM hMS => ?_⟩
    refine Classical.byContradiction fun hSM => hnone ⟨M, ?_, hM, hMS⟩
    exact mem_of_ssubset hnodup hsplit hM.sublist hMS hSM

end

/-! ## The search -/

section

open Classical

variable (e tracked t)

noncomputable def minimalSets (Ss : List (List String)) : List (List String) :=
  Ss.filter fun S => e.IsMinimal tracked t S

noncomputable def shown (Ss : List (List String)) : List T :=
  (e.minimalSets tracked t Ss).flatMap (e.accepted tracked t)

/-- The report once the given candidates have been met by a visitor that wants more. -/
noncomputable def reported (Ss : List (List String)) : Report where
  candidates := (Ss.filter fun S => e.IsTried tracked t S).length
  minimal := e.minimalSets tracked t Ss
  stopped := false

noncomputable def met (step : T → σ → σ) (s : σ) (Ss : List (List String)) : Report × σ :=
  (e.reported tracked t Ss, (e.shown tracked t Ss).foldl (fun s x => step x s) s)

variable {e tracked t} {visit : Visitor T σ} {step : T → σ → σ} {before after : List (List String)}
  {S : List String} {s : σ}

theorem mem_minimalSets {Ss : List (List String)} :
    S ∈ e.minimalSets tracked t Ss ↔ S ∈ Ss ∧ e.IsMinimal tracked t S := by
  rw [minimalSets, List.mem_filter, decide_eq_true_iff]

theorem mem_minimalSets_bySize :
    S ∈ e.minimalSets tracked t (Subsets.bySize tracked) ↔ e.IsMinimal tracked t S := by
  rw [mem_minimalSets, Subsets.mem_bySize]
  exact and_iff_right_of_imp IsMinimal.sublist

theorem exists_visits_of_mem_shown {x : T} (hx : x ∈ e.shown tracked t (Subsets.bySize tracked)) :
    ∃ S chosen, S.Sublist tracked ∧ e.Visits tracked t S chosen x := by
  obtain ⟨S, hS, hmem⟩ := List.mem_flatMap.1 hx
  obtain ⟨chosen, hvisits⟩ := mem_accepted_iff.1 hmem
  exact ⟨S, chosen, (mem_minimalSets_bySize.1 hS).sublist, hvisits⟩

theorem shown_append (before after : List (List String)) :
    e.shown tracked t (before ++ after) = e.shown tracked t before ++ e.shown tracked t after := by
  rw [shown, minimalSets, List.filter_append, List.flatMap_append]
  rfl

theorem any_minimal_iff :
    ((e.reported tracked t before).minimal.any fun M => M.all S.contains) = true ↔
      ∃ M ∈ before, e.IsMinimal tracked t M ∧ M ⊆ S := by
  simp [reported, mem_minimalSets, List.subset_def, and_assoc]

theorem reported_append_of_not_isTried {Ss : List (List String)}
    (h : ∀ S ∈ Ss, ¬e.IsTried tracked t S) :
    e.reported tracked t (before ++ Ss) = e.reported tracked t before := by
  have htried : (Ss.filter fun S => e.IsTried tracked t S) = [] :=
    List.filter_eq_nil_iff.2 fun S hS => mt of_decide_eq_true (h S hS)
  have hmin : (Ss.filter fun S => e.IsMinimal tracked t S) = [] :=
    List.filter_eq_nil_iff.2 fun S hS => mt of_decide_eq_true fun hm => h S hS hm.isTried
  simp only [reported, minimalSets, List.filter_append, htried, hmin, List.append_nil]

theorem shown_of_not_isTried {Ss : List (List String)} (h : ∀ S ∈ Ss, ¬e.IsTried tracked t S) :
    e.shown tracked t Ss = [] := by
  have hmin : e.minimalSets tracked t Ss = [] :=
    List.filter_eq_nil_iff.2 fun S hS => mt of_decide_eq_true fun hm => h S hS hm.isTried
  rw [shown, hmin, List.flatMap_nil]

theorem reported_append_of_isTried (hnodup : tracked.Nodup) (hS : e.IsTried tracked t S) :
    e.reported tracked t (before ++ [S]) =
      let r := e.reported tracked t before
      { candidates := r.candidates + 1
        minimal := if !(e.accepted tracked t S).isEmpty then r.minimal ++ [S] else r.minimal
        stopped := false } := by
  have hiff : e.IsMinimal tracked t S ↔ e.accepted tracked t S ≠ [] := hS.isMinimal_iff hnodup
  simp only [reported, minimalSets, List.filter_append, List.filter_singleton, decide_eq_true hS,
    cond_true, List.length_append, List.length_singleton]
  by_cases hempty : e.accepted tracked t S = []
  · have hmin : ¬e.IsMinimal tracked t S := fun h => hiff.1 h hempty
    simp only [decide_eq_false hmin, hempty, List.isEmpty_nil, Bool.not_true, Bool.false_eq_true,
      ↓reduceIte, cond_false, List.append_nil]
  · have hmin : e.IsMinimal tracked t S := hiff.2 hempty
    simp only [decide_eq_true hmin, List.isEmpty_eq_false_iff.2 hempty, Bool.not_false, ↓reduceIte,
      cond_true]

theorem shown_of_isTried (hnodup : tracked.Nodup) (hS : e.IsTried tracked t S) :
    e.shown tracked t [S] = e.accepted tracked t S := by
  have hiff : e.IsMinimal tracked t S ↔ e.accepted tracked t S ≠ [] := hS.isMinimal_iff hnodup
  rw [shown, minimalSets, List.filter_singleton]
  by_cases hempty : e.accepted tracked t S = []
  · rw [decide_eq_false fun h => hiff.1 h hempty, cond_false, List.flatMap_nil, hempty]
  · rw [decide_eq_true (hiff.2 hempty), cond_true, List.flatMap_singleton]

/-- **One candidate**: the search knows when to leave it out, and a minimal empty set ends it. -/
theorem value_tryCandidate (hnodup : tracked.Nodup)
    (hsplit : before ++ S :: after = Subsets.bySize tracked) (visit : Visitor T σ) (s : σ) :
    (e.tryCandidate tracked t visit S (e.reported tracked t before, s)).value =
      let report := e.reported tracked t (before ++ [S])
      match (Subsets.visitList visit (e.shown tracked t [S]) s).value with
      | .done s => .done ({ report with stopped := true }, s)
      | .more s => if e.IsMinimal tracked t S ∧ S = [] then .done (report, s)
        else .more (report, s) := by
  have hskip : ((e.reported tracked t before).minimal.any fun M => M.all S.contains) = true ↔
      ¬e.IsTried tracked t S := any_minimal_iff.trans (exists_met_iff hnodup hsplit)
  by_cases htried : e.IsTried tracked t S
  · have hend : (e.IsMinimal tracked t S ∧ S = []) ↔
        (!(e.accepted tracked t S).isEmpty && S.isEmpty) = true := by
      rw [htried.isMinimal_iff hnodup, Bool.and_eq_true, Bool.not_eq_true',
        List.isEmpty_eq_false_iff, List.isEmpty_iff]
      rfl
    rw [value_tryCandidate_of_tried (Bool.eq_false_iff.2 fun h => hskip.1 h htried),
      reported_append_of_isTried hnodup htried, shown_of_isTried hnodup htried, value_searchWith]
    dsimp only
    rw [Progress.state_map, Progress.isDone_map]
    cases (Subsets.visitList visit (e.accepted tracked t S) s).value with
    | done r => rw [Progress.isDone, Bool.or_true, if_pos rfl]; rfl
    | more r =>
      rw [Progress.isDone, Bool.or_false]
      exact if_congr hend.symm rfl rfl
  · have hleft : ∀ A ∈ [S], ¬e.IsTried tracked t A := List.forall_mem_singleton.2 htried
    rw [tryCandidate, if_pos (hskip.2 htried), reported_append_of_not_isTried hleft,
      shown_of_not_isTried hleft]
    exact (if_neg fun h => htried h.1.isTried).symm

theorem not_isTried_of_nil (hnodup : tracked.Nodup) (hmin : e.IsMinimal tracked t [])
    (hsplit : before ++ [] :: after = Subsets.bySize tracked) :
    ∀ A ∈ after, ¬e.IsTried tracked t A := by
  have horder := Subsets.pairwise_bySize (Subsets.pairwise_idxOf hnodup)
  rw [← hsplit, List.pairwise_append, List.pairwise_cons] at horder
  intro A hA htried
  have hbefore := horder.2.1.1 A hA
  rw [htried.eq_nil hmin] at hbefore
  exact Subsets.not_before_self _ [] hbefore

/-- **The remaining candidates**: they show the visitor their extensions until it is done, and
complete the report if it never is. -/
theorem exists_report_of_visitList (hnodup : tracked.Nodup)
    (hsplit : before ++ after = Subsets.bySize tracked) (visit : Visitor T σ) (s : σ) :
    let progress := (Subsets.visitList visit (e.shown tracked t after) s).value
    ∃ report, (Subsets.visitList (e.tryCandidate tracked t visit) after
        (e.reported tracked t before, s)).value.state = (report, progress.state) ∧
      report.stopped = progress.isDone ∧
      (progress.isDone = false → report = e.reported tracked t (Subsets.bySize tracked)) := by
  induction after generalizing before s with
  | nil =>
    rw [List.append_nil] at hsplit
    exact ⟨e.reported tracked t before, rfl, rfl, fun _ => by rw [hsplit]⟩
  | cons S after ih =>
    have hshown : e.shown tracked t (S :: after) = _ := shown_append [S] after
    rw [hshown, Subsets.visitList_append, Logged.value_bind, Subsets.visitList, Logged.value_bind,
      value_tryCandidate hnodup hsplit]
    cases (Subsets.visitList visit (e.shown tracked t [S]) s).value with
    | done r =>
      have hdone : (Progress.done r).isDone ≠ false := fun h => Bool.false_ne_true h.symm
      exact ⟨{ e.reported tracked t (before ++ [S]) with stopped := true }, rfl, rfl,
        fun h => absurd h hdone⟩
    | more r =>
      dsimp only
      by_cases hnil : e.IsMinimal tracked t S ∧ S = []
      · -- The search ends here, before candidates that it would have left out.
        rw [if_pos hnil]
        obtain ⟨hmin, rfl⟩ := hnil
        have hleft := not_isTried_of_nil hnodup hmin hsplit
        have hcomplete : e.reported tracked t (before ++ [[]]) =
            e.reported tracked t (Subsets.bySize tracked) := by
          rw [← hsplit, List.append_cons before [] after, reported_append_of_not_isTried hleft]
        rw [shown_of_not_isTried hleft]
        exact ⟨e.reported tracked t (before ++ [[]]), rfl, rfl, fun _ => hcomplete⟩
      · have hrest : before ++ [S] ++ after = Subsets.bySize tracked := by
          rw [List.append_assoc]
          exact hsplit
        rw [if_neg hnil]
        exact ih hrest r

/-- **A search shows its visitor the accepted extensions of the minimal sets in order, until it is
done**, and tells whether it was.  The report is complete if it was not. -/
theorem exists_report_of_search (hnodup : tracked.Nodup) (visit : Visitor T σ) (s : σ) :
    let progress := (Subsets.visitList visit (e.shown tracked t (Subsets.bySize tracked)) s).value
    ∃ report, (e.search tracked t visit s).value = (report, progress.state) ∧
      report.stopped = progress.isDone ∧
      (progress.isDone = false → report = e.reported tracked t (Subsets.bySize tracked)) := by
  rw [search, Logged.value_map, Subsets.visitBySize_eq]
  exact exists_report_of_visitList hnodup (List.nil_append _) visit s

theorem value_search (hnodup : tracked.Nodup)
    (hvisit : ∀ x s, (visit x s).value = .more (step x s)) :
    (e.search tracked t visit s).value = e.met tracked t step s (Subsets.bySize tracked) := by
  obtain ⟨report, hsearch, -, hreport⟩ := exists_report_of_search (e := e) (t := t) hnodup visit s
  rw [Subsets.value_visitList_of_more fun x _ => hvisit x] at hsearch hreport
  rw [hsearch, hreport rfl]
  rfl

theorem mem_minimal_met :
    S ∈ (e.met tracked t step s (Subsets.bySize tracked)).1.minimal ↔ e.IsMinimal tracked t S :=
  mem_minimalSets_bySize

/-- **The report of a search that is not stopped lists the minimal sets.** -/
theorem mem_minimal_search_iff (hnodup : tracked.Nodup)
    (hvisit : ∀ x s, (visit x s).value.isDone = false) :
    S ∈ (e.search tracked t visit s).value.1.minimal ↔ e.IsMinimal tracked t S := by
  have hstep : ∀ x s, (visit x s).value = .more (visit x s).value.state := fun x s =>
    Progress.eq_more_of_isDone_eq_false (hvisit x s)
  rw [value_search hnodup hstep, mem_minimal_met]

theorem value_search_collect (hnodup : tracked.Nodup) :
    (e.search tracked t Visitor.collect []).value.2 =
      (e.shown tracked t (Subsets.bySize tracked)).map GroundLogic.formulas := by
  rw [value_search hnodup fun _ _ => rfl, met, List.foldl_append_eq_append, List.nil_append,
    ← List.flatMap_def, ← List.map_eq_flatMap]

/-- **Something is collected exactly if some candidate is successful.** -/
theorem value_search_collect_ne_nil_iff (hnodup : tracked.Nodup) :
    (e.search tracked t Visitor.collect []).value.2 ≠ [] ↔
      ∃ S, S.Sublist tracked ∧ e.Successful tracked t S := by
  rw [value_search_collect hnodup, Ne, List.map_eq_nil_iff]
  constructor
  · intro hne
    obtain ⟨x, hx⟩ := List.exists_mem_of_ne_nil _ hne
    obtain ⟨S, chosen, hS, hvisits⟩ := exists_visits_of_mem_shown hx
    exact ⟨S, hS, successful_iff.2 ⟨chosen, x, hvisits⟩⟩
  · rintro ⟨S, hS, hsuccess⟩
    obtain ⟨M, hM, -⟩ := exists_isMinimal hnodup hS hsuccess
    obtain ⟨x, hx⟩ := List.exists_mem_of_ne_nil _ hM.successful
    exact List.ne_nil_of_mem (List.mem_flatMap.2 ⟨M, mem_minimalSets_bySize.2 hM, hx⟩)

theorem candidates_met_bySize (hnodup : tracked.Nodup) :
    (e.met tracked t step s (Subsets.bySize tracked)).1.candidates =
      Set.ncard {S | e.IsTried tracked t S} := by
  have htried : ∀ S, S ∈ (Subsets.bySize tracked).filter (fun S => e.IsTried tracked t S) ↔
      e.IsTried tracked t S := by
    intro S
    rw [List.mem_filter, Subsets.mem_bySize, decide_eq_true_iff]
    exact and_iff_right_of_imp IsTried.sublist
  exact length_eq_ncard ((Subsets.nodup_bySize hnodup).filter _) htried

end

/-- **A search that is not stopped reports exactly the minimal successful sets**, the smaller ones
first and those of one size in the order of their positions.  The visitor gets the accepted
extensions of these sets, set by set, and the candidates that count are the sets of tracked atoms
that properly contain no minimal one, so there is one as soon as the empty set is successful. -/
theorem searchReport_minimal (e : Encoding T) (ss : List Statement) (visit : Visitor T σ)
    (hvisit : ∀ x s, (visit x s).value.isDone = false) (s : σ) :
    let theory := Theory.ofStatements ss
    let encoded := e.encode theory.rules theory.facts
    let result := (theory.searchReport e visit s).value
    (∀ S, S ∈ result.1.minimal ↔ e.IsMinimal theory.atoms encoded S) ∧
      result.1.minimal.Pairwise (Subsets.Before theory.atoms.idxOf) ∧
      result.2 = (result.1.minimal.flatMap (e.accepted theory.atoms encoded)).foldl
        (fun s x => (visit x s).value.state) s ∧
      result.1.candidates = Set.ncard {S | e.IsTried theory.atoms encoded S} ∧
      (e.Successful theory.atoms encoded [] → result.1.candidates = 1) ∧
      result.1.stopped = false := by
  intro theory encoded result
  have hnodup : theory.atoms.Nodup := (Theory.isTracked_ofStatements ss).nodup
  let step (x : T) (s : σ) : σ := (visit x s).value.state
  have hstep : ∀ x s, (visit x s).value = .more (step x s) := by
    intro x s
    have hmore := hvisit x s
    show _ = Progress.more (visit x s).value.state
    cases hv : (visit x s).value with
    | more r => rfl
    | done r =>
      rw [hv] at hmore
      cases hmore
  have hresult : result = e.met theory.atoms encoded step s (Subsets.bySize theory.atoms) :=
    value_search hnodup hstep
  have hcandidates : result.1.candidates = Set.ncard {S | e.IsTried theory.atoms encoded S} := by
    rw [hresult]
    exact candidates_met_bySize hnodup
  refine ⟨?_, ?_, ?_, hcandidates, ?_, ?_⟩
  · intro S
    rw [hresult]
    exact mem_minimal_met
  · rw [hresult]
    exact (Subsets.pairwise_bySize (Subsets.pairwise_idxOf hnodup)).filter _
  · rw [hresult]
    rfl
  · intro hnil
    rw [hcandidates, setOf_isTried_eq hnodup hnil, Set.ncard_singleton]
  · rw [hresult]
    rfl

/-- Each of two atoms may be the one that is inconsistent, and together they are not tried. -/
theorem searchReport_minimal_either :
    let ss : List Statement := [.formula (.or [.atom "a", .atom "b"]), .formula (.not (.atom "a")),
      .formula (.not (.atom "b"))]
    let e : Encoding (ParaconsistentTheory solve) := .native solve
    let theory := Theory.ofStatements ss
    (theory.searchReport e Visitor.collect []).value.1 = ⟨3, [["a"], ["b"]], false⟩ ∧
      (∀ S, S ∈ [["a"], ["b"]] ↔ e.IsMinimal theory.atoms (e.encode theory.rules theory.facts) S) ∧
      Set.ncard {S | e.IsTried theory.atoms (e.encode theory.rules theory.facts) S} = 3 := by
  intro ss e theory
  have hreport : (theory.searchReport e Visitor.collect []).value.1 =
      ⟨3, [["a"], ["b"]], false⟩ := by
    cbv
  have h := searchReport_minimal e ss Visitor.collect (fun _ _ => rfl) []
  dsimp only at h
  rw [hreport] at h
  obtain ⟨hmin, -, -, hcandidates, -⟩ := h
  exact ⟨hreport, hmin, hcandidates.symm⟩

end Encoding

end DefaultLogic
