import DefaultLogic.Dialect.Readable
import DefaultLogic.Proofs.Default.NormalRules
import DefaultLogic.Proofs.Default.Pruning
import DefaultLogic.Proofs.Default.Testers

/-!
# Inconsistent sets of normal theories

The search never asks whether a set of atoms is minimal.  It asks whether an extension makes each
atom of the set both true and false.  For a minimal set the facts alone see to that: if they had a
model in which some atom of the set is classical, they would be satisfiable without this atom.

* `successful_of_isMinimal`: a minimal set is successful if all rules are normal.
* `satisfiableUnder_atoms`: facts are satisfiable once all their atoms may be inconsistent.
* `minimal_of_isNormal`: **with normal rules the reported sets are the minimal ones under which the
  facts are satisfiable, and there is one.**
-/

namespace DefaultLogic

open DefaultLogic.Sat

variable {solver : Solver} {inconsistent : List String} {t : Theory}

/-- Whether the facts can be true when the given atoms may be inconsistent. -/
def Theory.SatisfiableUnder (t : Theory) (inconsistent : List String) : Prop :=
  ∃ v, Satisfies v (t.facts.map (Formula.pnnf inconsistent))

/-! ## Successful sets -/

theorem satisfiableUnder_of_successful (hs : solver.Decides)
    (h : (Encoding.native solver).Successful t.atoms (nativeTheory solver t) inconsistent) :
    t.SatisfiableUnder inconsistent := by
  obtain ⟨chosen, x, hvisits⟩ := Encoding.successful_iff.1 h
  obtain ⟨-, ⟨v, hv⟩, -⟩ := reads_of_visits_native hs hvisits
  rw [List.map_append, satisfies_append] at hv
  exact ⟨v, hv.1⟩

/-- **A minimal set under which the facts are satisfiable is successful**, since normal rules have
an extension, which says at least what the facts say. -/
theorem successful_of_isMinimal (hs : solver.Decides) (hnormal : ∀ r ∈ t.rules, r.isNormal = true)
    (h : Subsets.IsMinimal t.SatisfiableUnder t.atoms inconsistent) :
    (Encoding.native solver).Successful t.atoms (nativeTheory solver t) inconsistent := by
  let u := (Encoding.native solver).restricted t.atoms (nativeTheory solver t) inconsistent
  have hrules : u.rules = t.rules := List.map_id _
  have hfacts := reads_native hs t inconsistent
  obtain ⟨chosen, hsub, hext⟩ :=
    exists_isExtensionBy_of_isNormal (Formula.pnnf inconsistent) t.facts hnormal
  have hgenerates : (u.generates chosen).value = true := by
    rw [DefaultTheory.generates_iff_isExtensionBy hfacts, hrules]
    exact hext
  have htests : ∀ g ∈ (Encoding.native solver).testers inconsistent,
      Entails ((t.facts ++ u.consequents chosen).map (Formula.pnnf inconsistent))
        (g.pnnf inconsistent) := by
    intro g hg
    obtain ⟨a, ha, rfl⟩ := List.mem_map.1 hg
    refine (entails_inconsistencyTester ha fun hsat => ?_).mono
      (List.map_subset _ (List.subset_append_left _ _))
    have hsub : (inconsistent.filter (· ≠ a)).Sublist t.atoms :=
      List.filter_sublist.trans h.sublist
    have hmem := h.minimal _ hsub hsat (List.filter_subset_self _) ha
    exact (mem_filter_ne.1 hmem).2 rfl
  have hsatisfiable := DefaultTheory.satisfiable_of_generates hfacts hgenerates h.holds
  have hreads := (ParaconsistentTheory.reading hs inconsistent).addAll (u.consequents chosen) hfacts
  obtain ⟨x, hx⟩ := Option.isSome_iff_exists.1
    ((Reading.accept?_isSome_iff _ hreads _).2 ⟨hsatisfiable, htests⟩)
  refine Encoding.successful_iff.2 ⟨chosen, x, ?_, hgenerates, hx⟩
  rw [← hrules] at hsub
  exact hsub

/-! ## All atoms -/

theorem Junction.eval_eq_true {bs : List Bool} (hne : bs ≠ []) (h : ∀ b ∈ bs, b = true)
    (j : Junction) : j.eval bs = true := by
  cases j with
  | and => exact List.all_eq_true.2 h
  | or =>
    obtain ⟨b, hb⟩ := List.exists_mem_of_ne_nil bs hne
    exact List.any_eq_true.2 ⟨b, hb, h b hb⟩

/-- When all atoms may be inconsistent, a formula and its negation are true together, as long as no
junction is empty. -/
theorem eval_push_eq_true {s : NegationStyle} {f : Formula} (h : f.MinOperands 1)
    (hs : ∀ a ∈ f.occurrences, s.renames a = true) (positive : Bool) :
    (f.push s positive).eval (fun _ => true) = true := by
  induction h generalizing positive with
  | atom name =>
    cases positive with
    | true => rfl
    | false =>
      rw [Formula.push, NegationStyle.literal, if_neg Bool.false_ne_true,
        if_pos (hs name (List.mem_singleton.2 rfl))]
      rfl
  | not h ih => exact ih hs !positive
  | @junction fs j hlength h ih =>
    rw [Formula.push_junction, Formula.eval_junction, List.map_map]
    have hne : fs ≠ [] := List.ne_nil_of_length_pos hlength
    refine Junction.eval_eq_true (mt List.map_eq_nil_iff.1 hne) (List.forall_mem_map.2 ?_) _
    intro f hf
    refine ih f hf (fun a ha => hs a ?_) positive
    rw [Formula.occurrences_junction]
    exact List.mem_flatMap.2 ⟨f, hf, ha⟩
  | arrow a hl hr ihl ihr =>
    have hl := ihl fun b hb => hs b (List.mem_append_left _ hb)
    have hr := ihr fun b hb => hs b (List.mem_append_right _ hb)
    cases a with
    | material =>
      rw [Formula.push, Formula.eval_junction, List.map_cons, List.map_cons, List.map_nil, hl, hr]
      cases positive <;> rfl
    | internal =>
      rw [Formula.push]
      split
      · rw [Formula.eval_junction, List.map_cons, List.map_cons, List.map_nil, hl, hr]
        rfl
      · split
        · rw [Formula.eval, hl, hr]
          rfl
        · rw [Formula.eval_junction, List.map_cons, List.map_cons, List.map_nil, Formula.eval, hl,
            hr]
          rfl
    | equivalence =>
      rw [Formula.push, Formula.eval, hl, hr]
      rfl

theorem satisfiableUnder_atoms (ht : t.IsTracked) (h : ∀ f ∈ t.facts, f.MinOperands 1) :
    t.SatisfiableUnder t.atoms := by
  refine ⟨fun _ => true, satisfies_map.2 fun f hf => ?_⟩
  exact eval_push_eq_true (h f hf) (fun a ha => List.contains_iff_mem.2 (ht.facts f hf ha)) true

/-! ## Reports -/

/-- **The minimal successful sets are the minimal ones under which the facts are satisfiable.** -/
theorem isMinimal_native_iff (hs : solver.Decides) (ht : t.IsTracked)
    (hnormal : ∀ r ∈ t.rules, r.isNormal = true) (S : List String) :
    (Encoding.native solver).IsMinimal t.atoms (nativeTheory solver t) S ↔
      Subsets.IsMinimal t.SatisfiableUnder t.atoms S :=
  Encoding.isMinimal_iff.trans <| Subsets.isMinimal_iff_of_imp ht.nodup
    (fun _ => satisfiableUnder_of_successful hs) (fun _ => successful_of_isMinimal hs hnormal) S

theorem mem_minimal_native_iff (hs : solver.Decides) (ht : t.IsTracked)
    (hnormal : ∀ r ∈ t.rules, r.isNormal = true) {σ : Type}
    {visit : Visitor (ParaconsistentTheory solver) σ}
    (hvisit : ∀ x s, (visit x s).value.isDone = false) (s : σ) (S : List String) :
    S ∈ (t.searchReport (.native solver) visit s).value.1.minimal ↔
      Subsets.IsMinimal t.SatisfiableUnder t.atoms S :=
  (Encoding.mem_minimal_search_iff ht.nodup hvisit).trans (isMinimal_native_iff hs ht hnormal S)

theorem mem_minimal_renamed_iff (hs : solver.Decides) (ht : t.IsTracked)
    (hplain : ∀ a ∈ t.atoms, IsPlain a) (hnormal : ∀ r ∈ t.rules, r.isNormal = true) {τ : Type}
    {visit : Visitor (ClassicalTheory solver) τ}
    (hvisit : ∀ x s, (visit x s).value.isDone = false) (s : τ) (S : List String) :
    S ∈ (t.searchReport (.renamed solver) visit s).value.1.minimal ↔
      Subsets.IsMinimal t.SatisfiableUnder t.atoms S := by
  let idle : Visitor (ParaconsistentTheory solver) Unit := fun _ s => pure (.more s)
  let Gathered : Unit → τ → Prop := fun _ _ => True
  have hagrees : ∀ candidate chosen (x : ParaconsistentTheory solver) y,
      ComeFrom t candidate chosen x y → ∀ r s, Gathered r s →
        (idle x r).value.Agrees Gathered (visit y s).value := by
    intro _ _ x y _ r s _
    rw [Progress.eq_more_of_isDone_eq_false (hvisit y s)]
    trivial
  have hidle : Gathered () s := trivial
  rw [← (searchReport_agrees hs ht hplain hagrees hidle).1]
  exact mem_minimal_native_iff hs ht hnormal (fun _ _ => rfl) () S

theorem extensions_ne_nil (hs : solver.Decides) (ht : t.IsTracked)
    (hplain : ∀ a ∈ t.atoms, IsPlain a) (hnormal : ∀ r ∈ t.rules, r.isNormal = true)
    {S : List String} (hS : Subsets.IsMinimal t.SatisfiableUnder t.atoms S) {k : Kind}
    (hk : k ≠ .classical) : (t.extensions solver k).value ≠ [] := by
  have hmin := (isMinimal_native_iff hs ht hnormal S).2 hS
  have hnative : (t.extensions solver .native).value ≠ [] := by
    rw [Theory.extensions, Logged.value_map]
    exact (Encoding.value_search_collect_ne_nil_iff ht.nodup).2 ⟨S, hmin.sublist, hmin.successful⟩
  cases k with
  | classical => exact absurd rfl hk
  | native => exact hnative
  | renamed => exact mt (extensions_eq_nil_iff hs ht hplain).1 hnative

/-- **If all rules are normal, the inconsistent sets that a search reports are exactly the minimal
sets of tracked atoms under which the facts are satisfiable**, under either encoding.  If no
junction of the facts is empty, there is such a set, so there is an extension, as a paraconsistent
theory always tells. -/
theorem minimal_of_isNormal {solver : Solver} (hs : solver.Decides) (ss : List Statement)
    (hplain : ∀ s ∈ ss, ∀ a ∈ s.occurrences, IsPlain a)
    (hnormal : ∀ r, .rule r ∈ ss → r.isNormal = true) :
    let t := Theory.ofStatements ss
    let Minimal : List String → Prop := Subsets.IsMinimal t.SatisfiableUnder t.atoms
    (∀ {σ : Type} (visit : Visitor (ParaconsistentTheory solver) σ) (s : σ),
        (∀ x s, (visit x s).value.isDone = false) →
          ∀ S, S ∈ (t.searchReport (.native solver) visit s).value.1.minimal ↔ Minimal S) ∧
      (∀ {σ : Type} (visit : Visitor (ClassicalTheory solver) σ) (s : σ),
        (∀ x s, (visit x s).value.isDone = false) →
          ∀ S, S ∈ (t.searchReport (.renamed solver) visit s).value.1.minimal ↔ Minimal S) ∧
      ((∀ f ∈ t.facts, f.MinOperands 1) → (∃ S, Minimal S) ∧
        ∀ k, k ≠ .classical →
          (t.extensions solver k).value ≠ [] ∧ (t.hasExtension solver k).value = true) := by
  intro t Minimal
  have ht : t.IsTracked := Theory.isTracked_ofStatements ss
  have hatoms : ∀ a ∈ t.atoms, IsPlain a := by
    intro a ha
    obtain ⟨s, htold, has⟩ := Theory.mem_atoms_ofStatements.1 ha
    exact hplain s htold a has
  have hrules : ∀ r ∈ t.rules, r.isNormal = true := by
    intro r hr
    exact hnormal r (Theory.mem_rules_ofStatements.1 hr)
  refine ⟨fun visit s hvisit => mem_minimal_native_iff hs ht hrules hvisit s,
    fun visit s hvisit => mem_minimal_renamed_iff hs ht hatoms hrules hvisit s, fun hfacts => ?_⟩
  obtain ⟨S, hS, -⟩ := Subsets.exists_isMinimal ht.nodup (List.Sublist.refl t.atoms)
    (satisfiableUnder_atoms ht hfacts)
  refine ⟨⟨S, hS⟩, fun k hk => ⟨extensions_ne_nil hs ht hatoms hrules hS hk, ?_⟩⟩
  cases k with
  | classical => exact absurd rfl hk
  | native | renamed => rfl

/-- Each of two atoms may be the inconsistent one, and a rule about the other changes nothing. -/
theorem minimal_of_isNormal_either :
    let ss : List Statement := [.formula (.or [.atom "a", .atom "b"]), .formula (.not (.atom "a")),
      .formula (.not (.atom "b")), .rule ⟨.atom "a", .atom "b", .atom "b"⟩]
    let t := Theory.ofStatements ss
    solve.Decides ∧ (∀ s ∈ ss, ∀ a ∈ s.occurrences, IsPlain a) ∧
      (t.searchReport (.native solve) Visitor.collect []).value.1.minimal = [["a"], ["b"]] ∧
      (∀ S, S ∈ [["a"], ["b"]] ↔ Subsets.IsMinimal t.SatisfiableUnder t.atoms S) ∧
      (∀ S, S ∈ (t.searchReport (.renamed solve) Visitor.collect []).value.1.minimal ↔
        S ∈ [["a"], ["b"]]) ∧
      (t.extensions solve .native).value ≠ [] ∧ (t.extensions solve .renamed).value ≠ [] := by
  intro ss t
  have hplain : ∀ s ∈ ss, ∀ a ∈ s.occurrences, IsPlain a := by
    have hlast : ∀ s ∈ ss, ∀ a ∈ s.occurrences, a.toList.getLast? ≠ some '-' := by
      decide
    exact fun s hmem a ha => isPlain_of_getLast? (hlast s hmem a ha)
  have hnormal : ∀ r, .rule r ∈ ss → r.isNormal = true := by
    intro r hr
    obtain rfl : r = ⟨.atom "a", .atom "b", .atom "b"⟩ := by simpa [ss] using hr
    rfl
  have hfacts : ∀ f ∈ t.facts, f.MinOperands 1 := by
    have hatoms : ∀ f ∈ [Formula.atom "a", .atom "b"], f.MinOperands 1 :=
      List.forall_mem_cons.2 ⟨.atom _, List.forall_mem_singleton.2 (.atom _)⟩
    have hor : (Formula.or [.atom "a", .atom "b"]).MinOperands 1 :=
      .junction _ (by decide) hatoms
    exact List.forall_mem_cons.2 ⟨hor, List.forall_mem_cons.2 ⟨.not (.atom _),
      List.forall_mem_singleton.2 (.not (.atom _))⟩⟩
  have hreport : (t.searchReport (.native solve) Visitor.collect []).value.1.minimal =
      [["a"], ["b"]] := by
    cbv
  obtain ⟨hnative, hrenamed, hexists⟩ :=
    minimal_of_isNormal solve_decides ss hplain hnormal
  have hminimal : ∀ S, S ∈ [["a"], ["b"]] ↔ Subsets.IsMinimal t.SatisfiableUnder t.atoms S := by
    intro S
    rw [← hreport]
    exact hnative Visitor.collect [] (fun _ _ => rfl) S
  obtain ⟨-, hkinds⟩ := hexists hfacts
  refine ⟨solve_decides, hplain, hreport, hminimal, fun S => ?_,
    (hkinds .native (by decide)).1, (hkinds .renamed (by decide)).1⟩
  rw [hminimal]
  exact hrenamed Visitor.collect [] (fun _ _ => rfl) S

end DefaultLogic
