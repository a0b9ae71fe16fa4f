import DefaultLogic.Proofs.Default.Lockstep
import DefaultLogic.Proofs.Default.Renaming
import DefaultLogic.Proofs.Default.Statements
import DefaultLogic.Proofs.Theory.Paraconsistent

/-!
# The two encodings agree

For each candidate the theory of the native encoding and that of the renaming encoding have matching
models, which makes a simulation.  Their searches therefore run in lockstep.

* `agreement`: the simulation.
* `corresponds`: the encodings of a theory correspond on every candidate.
* `searchReport_agrees`, `entailsUnder_agrees`: **they make the same reports and answer alike.**
-/

namespace DefaultLogic

open DefaultLogic.Sat

variable {solver : Solver} {known : List String}

/-! ## The simulation -/

/-- A native and a renamed theory hold the same known formulas, the latter together with the
assertions that all known atoms but the given ones are classical. -/
structure HoldSame (hs : solver.Decides) (known inconsistent : List String) (fs gs : List Formula)
    (x : ParaconsistentTheory solver) (y : ClassicalTheory solver) : Prop where
  native : (ParaconsistentTheory.reading hs inconsistent).Reads (Formula.pnnf inconsistent) fs x
  renamed : (ClassicalTheory.reading hs).Reads id gs y
  subset : ∀ f ∈ fs, f.occurrences ⊆ known
  mem : ∀ g, g ∈ gs ↔ g ∈ fs.map Formula.fullPnnf ∨ g ∈ classicalAssertions known inconsistent

namespace HoldSame

variable {hs : solver.Decides} {inconsistent : List String} {fs gs : List Formula}
  {x : ParaconsistentTheory solver} {y : ClassicalTheory solver}

theorem satisfies_iff (h : HoldSame hs known inconsistent fs gs x y) (w : Valuation) :
    Satisfies w gs ↔ Satisfies w (fs.map Formula.fullPnnf) ∧
      Satisfies w (classicalAssertions known inconsistent) := by
  refine Iff.trans (forall_congr' fun g => ?_) List.forall_mem_append
  rw [h.mem, List.mem_append]

theorem satisfiable_iff (h : HoldSame hs known inconsistent fs gs x y)
    (hplain : ∀ a ∈ known, IsPlain a) {f? : Option Formula} (hf : ∀ f ∈ f?, f.occurrences ⊆ known) :
    (GroundLogic.satisfiable f? x).value.1 =
      (GroundLogic.satisfiable (f?.map Formula.fullPnnf) y).value.1 := by
  have hall : ∀ f ∈ fs ++ f?.toList, f.occurrences ⊆ known :=
    List.forall_mem_append.2 ⟨h.subset, fun f hmem => hf f (Option.mem_toList.1 hmem)⟩
  rw [Bool.eq_iff_iff, (ParaconsistentTheory.reading hs inconsistent).satisfiable_iff f? h.native,
    (ClassicalTheory.reading hs).satisfiable_iff _ h.renamed, satisfiable_iff_renamed hplain hall]
  refine exists_congr fun w => ?_
  rw [List.map_id, List.map_append, satisfies_append, satisfies_append, h.satisfies_iff,
    and_right_comm]
  cases f? <;> rfl

theorem entails_iff (h : HoldSame hs known inconsistent fs gs x y)
    (hplain : ∀ a ∈ known, IsPlain a) {f : Formula} (hf : f.occurrences ⊆ known) :
    (GroundLogic.entails f x).value.1 = (GroundLogic.entails f.fullPnnf y).value.1 := by
  rw [Bool.eq_iff_iff, (ParaconsistentTheory.reading hs inconsistent).entails_iff f h.native,
    (ClassicalTheory.reading hs).entails_iff _ h.renamed, entails_iff_renamed hplain h.subset hf,
    List.map_id]
  refine forall_congr' fun w => ?_
  rw [h.satisfies_iff, and_imp]
  rfl

theorem add (h : HoldSame hs known inconsistent fs gs x y) {f : Formula}
    (hf : f.occurrences ⊆ known) :
    HoldSame hs known inconsistent (fs ++ [f]) (gs ++ [f.fullPnnf]) (GroundLogic.add x f)
      (GroundLogic.add y f.fullPnnf) where
  native := (ParaconsistentTheory.reading hs inconsistent).add f h.native
  renamed := (ClassicalTheory.reading hs).add f.fullPnnf h.renamed
  subset := List.forall_mem_append.2 ⟨h.subset, List.forall_mem_singleton.2 hf⟩
  mem g := by
    rw [List.map_append, List.mem_append, List.mem_append, h.mem, or_right_comm]
    rfl

end HoldSame

/-- **The simulation of native theories by renamed ones** for one set of inconsistent atoms. -/
def agreement (hs : solver.Decides) (hplain : ∀ a ∈ known, IsPlain a) (inconsistent : List String) :
    Simulation (ParaconsistentTheory solver) (ClassicalTheory solver) Formula.fullPnnf
      fun f => f.occurrences ⊆ known where
  Related x y := ∃ fs gs, HoldSame hs known inconsistent fs gs x y
  add := by
    rintro x y f hf ⟨fs, gs, h⟩
    exact ⟨fs ++ [f], gs ++ [f.fullPnnf], h.add hf⟩
  satisfiable := by
    rintro x y f? hf ⟨fs, gs, h⟩
    refine ⟨h.satisfiable_iff hplain hf, fs, gs, ?_, ?_, h.subset, h.mem⟩
    · exact (ParaconsistentTheory.reading hs inconsistent).afterSatisfiable f? h.native
    · exact (ClassicalTheory.reading hs).afterSatisfiable _ h.renamed
  entails := by
    rintro x y f hf ⟨fs, gs, h⟩
    refine ⟨h.entails_iff hplain hf, fs, gs, ?_, ?_, h.subset, h.mem⟩
    · exact (ParaconsistentTheory.reading hs inconsistent).afterEntails f h.native
    · exact (ClassicalTheory.reading hs).afterEntails _ h.renamed

/-! ## Encoded theories -/

def Theory.consequents (t : Theory) (indices : List Nat) : List Formula :=
  indices.filterMap fun i => t.rules[i]?.map Rule.consequent

theorem consequents_encode {T : Type} [GroundLogic T] (e : Encoding T) (t : Theory)
    (indices : List Nat) :
    (e.encode t.rules t.facts).consequents indices = (t.consequents indices).map e.transform := by
  rw [DefaultTheory.consequents, Theory.consequents, List.map_filterMap]
  refine congrArg (List.filterMap · indices) (funext fun i => ?_)
  show (t.rules.map (Rule.map e.transform))[i]?.map _ = _
  rw [List.getElem?_map, Option.map_map, Option.map_map]
  rfl

theorem Theory.IsTracked.consequents {t : Theory} (ht : t.IsTracked) (chosen : List Nat) :
    ∀ g ∈ t.consequents chosen, g.occurrences ⊆ t.atoms := by
  intro g hg
  obtain ⟨i, -, hi⟩ := List.mem_filterMap.1 hg
  obtain ⟨r, hr, rfl⟩ := Option.map_eq_some_iff.1 hi
  exact (List.append_subset.1 (ht.rules r (List.mem_of_getElem? hr))).2

def nativeTheory (solver : Solver) (t : Theory) : DefaultTheory (ParaconsistentTheory solver) :=
  (Encoding.native solver).encode t.rules t.facts

/-- The theory of the renaming encoding, prepared for queries with further atoms. -/
def renamedTheory (solver : Solver) (t : Theory) (further : List String) :
    DefaultTheory (ClassicalTheory solver) :=
  let encoded := (Encoding.renamed solver).encode t.rules t.facts
  { encoded with ground := GroundLogic.addAll encoded.ground (classicalAssertions further t.atoms) }

variable (hs : solver.Decides) {t : Theory} {further inconsistent : List String}

theorem reads_native (t : Theory) (inconsistent : List String) :
    (ParaconsistentTheory.reading hs inconsistent).Reads (Formula.pnnf inconsistent) t.facts
      ((Encoding.native solver).restricted t.atoms (nativeTheory solver t)
        inconsistent).ground := by
  have hfacts : (ParaconsistentTheory.reading hs []).Reads (Formula.pnnf []) ([] ++ t.facts.map id)
      (nativeTheory solver t).ground :=
    (ParaconsistentTheory.reading hs []).addAll _ (ParaconsistentTheory.reads_empty hs)
  rw [List.nil_append, List.map_id] at hfacts
  exact ParaconsistentTheory.reads_setInconsistent hs hfacts inconsistent

theorem reads_renamed (t : Theory) (further inconsistent : List String) :
    (ClassicalTheory.reading hs).Reads id
      (t.facts.map Formula.fullPnnf ++ classicalAssertions further t.atoms ++
        classicalAssertions t.atoms inconsistent)
      ((Encoding.renamed solver).restricted t.atoms (renamedTheory solver t further)
        inconsistent).ground := by
  have hfacts := (ClassicalTheory.reading hs).addAll (t.facts.map Formula.fullPnnf)
    (ClassicalTheory.reads_empty hs)
  rw [List.nil_append] at hfacts
  have hprepared := (ClassicalTheory.reading hs).addAll (classicalAssertions further t.atoms) hfacts
  exact (ClassicalTheory.reading hs).addAll (classicalAssertions t.atoms inconsistent) hprepared

theorem mem_classicalAssertions {g : Formula} :
    g ∈ classicalAssertions known inconsistent ↔
      ∃ a ∈ known, a ∉ inconsistent ∧ classicalAssertion a = g := by
  rw [classicalAssertions, List.mem_map]
  refine exists_congr fun a => ?_
  rw [List.mem_filter, decide_eq_true_iff, and_assoc]

theorem mem_classicalAssertions_append (hsub : inconsistent ⊆ known) {g : Formula} :
    g ∈ classicalAssertions further known ∨ g ∈ classicalAssertions known inconsistent ↔
      g ∈ classicalAssertions (known ++ further) inconsistent := by
  rw [mem_classicalAssertions, mem_classicalAssertions, mem_classicalAssertions]
  constructor
  · rintro (⟨a, ha, hknown, rfl⟩ | ⟨a, ha, hmem, rfl⟩)
    · exact ⟨a, List.mem_append_right _ ha, fun hmem => hknown (hsub hmem), rfl⟩
    · exact ⟨a, List.mem_append_left _ ha, hmem, rfl⟩
  · rintro ⟨a, ha, hmem, rfl⟩
    by_cases hknown : a ∈ known
    · exact .inr ⟨a, hknown, hmem, rfl⟩
    · exact .inl ⟨a, (List.mem_append.1 ha).resolve_left hknown, hknown, rfl⟩

theorem holdSame_restricted (ht : t.IsTracked) (hsub : inconsistent ⊆ t.atoms) :
    HoldSame hs (t.atoms ++ further) inconsistent t.facts
      (t.facts.map Formula.fullPnnf ++ classicalAssertions further t.atoms ++
        classicalAssertions t.atoms inconsistent)
      ((Encoding.native solver).restricted t.atoms (nativeTheory solver t) inconsistent).ground
      ((Encoding.renamed solver).restricted t.atoms (renamedTheory solver t further)
        inconsistent).ground where
  native := reads_native hs t inconsistent
  renamed := reads_renamed hs t further inconsistent
  subset f hf := List.Subset.trans (ht.facts f hf) (List.subset_append_left _ _)
  mem g := by
    rw [List.append_assoc, List.mem_append, List.mem_append, mem_classicalAssertions_append hsub]

theorem occurrences_inconsistencyTester {a b : String}
    (h : b ∈ (inconsistencyTester a).occurrences) : b = a := by
  have hnames : (inconsistencyTester a).occurrences = [a, a, a, a] := rfl
  rw [hnames] at h
  simpa using h

open Encoding in
/-- **The encodings of a theory correspond on every candidate.** -/
theorem corresponds (ht : t.IsTracked) (hplain : ∀ a ∈ t.atoms ++ further, IsPlain a)
    (hsub : inconsistent ⊆ t.atoms) :
    Corresponds (agreement hs hplain inconsistent) (.native solver) (.renamed solver) t.atoms
      (nativeTheory solver t) (renamedTheory solver t further) inconsistent where
  relates := by
    refine ⟨⟨_, _, holdSame_restricted hs ht hsub⟩, ?_, ?_⟩
    · show t.rules.map _ = (t.rules.map _).map _
      rw [List.map_map]
      rfl
    · intro r hr
      obtain ⟨q, hq, rfl⟩ := List.mem_map.1 hr
      have hknown : q.occurrences ⊆ t.atoms ++ further :=
        List.Subset.trans (ht.rules q hq) (List.subset_append_left _ further)
      obtain ⟨hpair, hconsequent⟩ := List.append_subset.1 hknown
      obtain ⟨hprerequisite, hjustification⟩ := List.append_subset.1 hpair
      exact ⟨hprerequisite, hjustification, hconsequent⟩
  known := by
    intro f hf
    obtain ⟨a, ha, rfl⟩ := List.mem_map.1 hf
    intro b hb
    rw [occurrences_inconsistencyTester hb]
    exact List.mem_append_left _ (hsub ha)
  testers := by
    show inconsistent.map _ = (inconsistent.map _).map _
    rw [List.map_map]
    rfl

/-! ## Visited extensions -/

/-- A visitor that gathers extensions, up to a limit if one is given. -/
def Visitor.upTo {T : Type} (limit? : Option Nat) : Visitor T (List T) := fun x xs =>
  pure (if limit?.any (· ≤ xs.length + 1) then .done (xs ++ [x]) else .more (xs ++ [x]))

theorem reads_of_visits_native (hs : solver.Decides) {S : List String} {chosen : List Nat}
    {x : ParaconsistentTheory solver}
    (hx : (Encoding.native solver).Visits t.atoms (nativeTheory solver t) S chosen x) :
    let fs := t.facts ++ t.consequents chosen
    (ParaconsistentTheory.reading hs S).Reads (Formula.pnnf S) fs x ∧
      (∃ v, Satisfies v (fs.map (Formula.pnnf S))) ∧
      ∀ a ∈ S, Entails (fs.map (Formula.pnnf S)) ((inconsistencyTester a).pnnf S) := by
  have hconsequents : (nativeTheory solver t).consequents chosen = t.consequents chosen :=
    (consequents_encode (.native solver) t chosen).trans (List.map_id _)
  obtain ⟨hreads, hsat, htests⟩ := hx.reads (reads_native hs t S)
  rw [hconsequents] at hreads hsat htests
  exact ⟨hreads, hsat, fun a ha => htests _ (List.mem_map_of_mem ha)⟩

theorem reads_of_visits_renamed (hs : solver.Decides) {S : List String} {chosen : List Nat}
    {y : ClassicalTheory solver}
    (hy : (Encoding.renamed solver).Visits t.atoms (renamedTheory solver t []) S chosen y) :
    let gs := t.facts.map Formula.fullPnnf ++ classicalAssertions t.atoms S ++
      (t.consequents chosen).map Formula.fullPnnf
    (ClassicalTheory.reading hs).Reads id gs y ∧ (∃ v, Satisfies v gs) ∧
      ∀ a ∈ S, Entails gs (inconsistencyTester a).fullPnnf := by
  have hconsequents : (renamedTheory solver t []).consequents chosen =
      (t.consequents chosen).map Formula.fullPnnf :=
    consequents_encode (.renamed solver) t chosen
  have hnone : classicalAssertions [] t.atoms = [] := rfl
  obtain ⟨hreads, hsat, htests⟩ := hy.reads (reads_renamed hs t [] S)
  rw [hconsequents, hnone, List.append_nil] at hreads hsat htests
  rw [List.map_id] at hsat htests
  exact ⟨hreads, hsat, fun a ha => htests _ (List.mem_map_of_mem ha)⟩

/-- Whether two extensions come from the same candidate and the same rules: what they hold, and that
either search visits them there. -/
structure ComeFrom (t : Theory) (candidate : List String) (chosen : List Nat)
    (x : ParaconsistentTheory solver) (y : ClassicalTheory solver) : Prop where
  sublist : candidate.Sublist t.atoms
  native : (Encoding.native solver).Visits t.atoms
    ((Encoding.native solver).encode t.rules t.facts) candidate chosen x
  renamed : (Encoding.renamed solver).Visits t.atoms
    ((Encoding.renamed solver).encode t.rules t.facts) candidate chosen y
  inconsistent : x.inconsistent = sortedNames candidate
  formulas : x.formulas = t.facts ++ t.consequents chosen
  renamedFormulas : y.formulas = t.facts.map Formula.fullPnnf ++
    classicalAssertions t.atoms candidate ++ (t.consequents chosen).map Formula.fullPnnf

theorem comeFrom_of_visits (hs : solver.Decides) {candidate : List String} {chosen : List Nat}
    {x : ParaconsistentTheory solver} {y : ClassicalTheory solver}
    (hsub : candidate.Sublist t.atoms)
    (hx : (Encoding.native solver).Visits t.atoms (nativeTheory solver t) candidate chosen x)
    (hy : (Encoding.renamed solver).Visits t.atoms (renamedTheory solver t []) candidate chosen y) :
    ComeFrom t candidate chosen x y := by
  have hnative := (reads_of_visits_native hs hx).1
  have hrenamed := (reads_of_visits_renamed hs hy).1
  exact ⟨hsub, hx, hy, hnative.2.1, hnative.2.2.1, hrenamed.2.1⟩

/-! ## Agreement -/

section

variable {σ τ : Type} {visit : Visitor (ParaconsistentTheory solver) σ}
  {visit' : Visitor (ClassicalTheory solver) τ} {Gathered : σ → τ → Prop} {s : σ} {s' : τ}

/-- **The searches under the two encodings make the same report** if their visitors agree on
extensions that come from the same candidate and the same rules. -/
theorem searchReport_agrees (hs : solver.Decides) (ht : t.IsTracked)
    (hplain : ∀ a ∈ t.atoms, IsPlain a)
    (hvisit : ∀ candidate chosen x y, ComeFrom t candidate chosen x y → ∀ s s', Gathered s s' →
      (visit x s).value.Agrees Gathered (visit' y s').value) (hgathered : Gathered s s') :
    (t.searchReport (.native solver) visit s).value.1 =
        (t.searchReport (.renamed solver) visit' s').value.1 ∧
      Gathered (t.searchReport (.native solver) visit s).value.2
        (t.searchReport (.renamed solver) visit' s').value.2 := by
  have hknown : ∀ a ∈ t.atoms ++ [], IsPlain a := by
    rw [List.append_nil]
    exact hplain
  have hcorresponds := fun (S : List String) (hS : S.Sublist t.atoms) =>
    corresponds hs ht hknown hS.subset
  refine Encoding.search_agrees hcorresponds ?_ hgathered
  intro S hS chosen x y hx hy _
  exact hvisit S chosen x y (comeFrom_of_visits hs hS hx hy)

end

theorem upTo_agrees (limit? : Option Nat) {x : ParaconsistentTheory solver}
    {y : ClassicalTheory solver}
    {Same : ParaconsistentTheory solver → ClassicalTheory solver → Prop} (hxy : Same x y)
    {xs : List (ParaconsistentTheory solver)} {ys : List (ClassicalTheory solver)}
    (h : List.Forall₂ Same xs ys) :
    (Visitor.upTo limit? x xs).value.Agrees (List.Forall₂ Same)
      (Visitor.upTo limit? y ys).value := by
  have hsnoc : List.Forall₂ Same (xs ++ [x]) (ys ++ [y]) :=
    List.rel_append h (List.Forall₂.cons hxy List.Forall₂.nil)
  rw [Visitor.upTo, Visitor.upTo, Logged.value_pure, Logged.value_pure, h.length_eq]
  split
  · exact hsnoc
  · exact hsnoc

theorem count_agrees (hs : solver.Decides) (ht : t.IsTracked) (hplain : ∀ a ∈ t.atoms, IsPlain a) :
    (t.count solver .native).value = (t.count solver .renamed).value := by
  have hcollect : ∀ (x : ParaconsistentTheory solver) (y : ClassicalTheory solver)
      (xs ys : List (List Formula)), xs.length = ys.length →
      (Visitor.collect x xs).value.Agrees (fun xs ys => xs.length = ys.length)
        (Visitor.collect y ys).value := by
    intro x y xs ys h
    show (xs ++ [_]).length = (ys ++ [_]).length
    rw [List.length_append, List.length_append, h]
    rfl
  simp only [Theory.count, Theory.extensions, Logged.value_map]
  exact (searchReport_agrees hs ht hplain (fun _ _ x y _ => hcollect x y) rfl).2

theorem extensions_eq_nil_iff (hs : solver.Decides) (ht : t.IsTracked)
    (hplain : ∀ a ∈ t.atoms, IsPlain a) :
    (t.extensions solver .renamed).value = [] ↔ (t.extensions solver .native).value = [] := by
  have hcount := count_agrees hs ht hplain
  rw [Theory.count, Theory.count, Logged.value_map, Logged.value_map] at hcount
  rw [← List.length_eq_zero_iff, ← hcount, List.length_eq_zero_iff]

/-- **The two encodings answer alike**, whatever plain atoms the formula has. -/
theorem entailsUnder_agrees (hs : solver.Decides) (ht : t.IsTracked)
    (hplain : ∀ a ∈ t.atoms, IsPlain a) {f : Formula} (hf : ∀ a ∈ f.occurrences, IsPlain a)
    (mode : Mode) :
    (t.entailsUnder (.native solver) mode f).value =
      (t.entailsUnder (.renamed solver) mode f).value := by
  have hknown : ∀ a ∈ t.atoms ++ f.atoms, IsPlain a :=
    List.forall_mem_append.2 ⟨hplain, fun a ha => hf a (List.mem_eraseDups.1 ha)⟩
  have hcorresponds := fun (S : List String) (hS : S.Sublist t.atoms) =>
    corresponds hs ht hknown hS.subset
  have hquery : f.occurrences ⊆ t.atoms ++ f.atoms := fun a ha =>
    List.mem_append_right _ (List.mem_eraseDups.2 ha)
  refine (Encoding.search_agrees hcorresponds ?_ rfl).2
  intro S hS chosen x y hx hy hxy b b' hb
  obtain rfl : b = b' := hb
  exact Visitor.entailment_agrees ((agreement hs hknown S).entails hquery hxy).1 mode b

/-- **The two encodings of a theory without names that stand for negations agree**: whenever the
visitor stops, they make the same report and visit extensions that come, one by one, from the same
candidates and the same rules, so they count the same extensions and answer every question alike. -/
theorem encodings_agree {solver : Solver} (hs : solver.Decides) (ss : List Statement)
    (hplain : ∀ s ∈ ss, ∀ a ∈ s.occurrences, IsPlain a) :
    let t := Theory.ofStatements ss
    (∀ limit? : Option Nat,
      let native := (t.searchReport (.native solver) (Visitor.upTo limit?) []).value
      let renamed := (t.searchReport (.renamed solver) (Visitor.upTo limit?) []).value
      native.1 = renamed.1 ∧
        List.Forall₂ (fun x y => ∃ candidate chosen, ComeFrom t candidate chosen x y)
          native.2 renamed.2) ∧
      (t.count solver .native).value = (t.count solver .renamed).value ∧
      ∀ f : Formula, (∀ a ∈ f.occurrences, IsPlain a) → ∀ mode,
        (t.entails solver mode f .native).value = (t.entails solver mode f .renamed).value := by
  intro t
  have ht : t.IsTracked := Theory.isTracked_ofStatements ss
  have hatoms : ∀ a ∈ t.atoms, IsPlain a := by
    intro a ha
    obtain ⟨s, htold, has⟩ := Theory.mem_atoms_ofStatements.1 ha
    exact hplain s htold a has
  refine ⟨?_, count_agrees hs ht hatoms, fun f hf => entailsUnder_agrees hs ht hatoms hf⟩
  intro limit?
  refine searchReport_agrees hs ht hatoms ?_ .nil
  intro candidate chosen x y hxy xs ys h
  exact upTo_agrees limit? ⟨candidate, chosen, hxy⟩ h

/-- An inconsistent atom does not keep a rule from applying, under the one encoding as under the
other. -/
theorem encodings_agree_inconsistent :
    let ss : List Statement := [.formula (.atom "a"), .formula (.not (.atom "a")),
      .rule ⟨.atom "a", .atom "b", .atom "b"⟩]
    let t := Theory.ofStatements ss
    solve.Decides ∧ (∀ s ∈ ss, ∀ a ∈ s.occurrences, IsPlain a) ∧
      (t.searchReport (.renamed solve) (Visitor.upTo (some 1)) []).value.1 =
        ⟨2, [["a"]], true⟩ ∧
      (t.count solve .renamed).value = 1 ∧
      (t.entails solve .skeptical (.atom "b") .renamed).value = true ∧
      (t.entails solve .credulous (.atom "c") .renamed).value = false := by
  intro ss t
  have hs : solve.Decides := solve_decides
  have hplain : ∀ s ∈ ss, ∀ a ∈ s.occurrences, IsPlain a := by
    have hlast : ∀ s ∈ ss, ∀ a ∈ s.occurrences, a.toList.getLast? ≠ some '-' := by
      decide
    exact fun s hmem a ha => isPlain_of_getLast? (hlast s hmem a ha)
  have hquery : ∀ name : String, name.toList.getLast? ≠ some '-' →
      ∀ a ∈ (Formula.atom name).occurrences, IsPlain a := by
    intro name hname a ha
    rw [List.mem_singleton.1 ha]
    exact isPlain_of_getLast? hname
  obtain ⟨hreport, hcount, hentails⟩ := encodings_agree hs ss hplain
  refine ⟨hs, hplain, ?_, ?_, ?_, ?_⟩
  · rw [← (hreport (some 1)).1]
    cbv
  · rw [← hcount]
    cbv
  · rw [← hentails _ (hquery "b" (by decide)) .skeptical]
    cbv
  · rw [← hentails _ (hquery "c" (by decide)) .credulous]
    cbv

end DefaultLogic
