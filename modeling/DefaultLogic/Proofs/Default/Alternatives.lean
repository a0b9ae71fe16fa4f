import DefaultLogic.Proofs.Default.Enumeration

/-!
# Extensions are maximal alternatives

The more is believed, the fewer justifications are consistent with it, and the less is concluded.
Since an extension is what it concludes, it cannot say more than another one.

* `IsExtension.eq_of_subset`: **an extension that says no more than another one is that one.**
* `not_isGenerating_of_unsatisfiable`: beliefs in conflict justify no rule.
* `generators_of_unsatisfiable`: so facts in conflict have the one extension without rules.
* `Theory.extensions_alternatives`: **no listed extension entails another one; all are satisfiable
  if the facts are, and the facts are the only one if they are not.**
-/

namespace DefaultLogic

open DefaultLogic.Sat

variable {rules : List Rule} {facts : List Formula} {E F : Beliefs}

/-! ## Extensions compared -/

theorem Beliefs.ConsistentWith.of_subset {f : Formula} (hEF : ∀ g, E g → F g)
    (h : F.ConsistentWith f) : E.ConsistentWith f := by
  obtain ⟨v, hv, hf⟩ := h
  exact ⟨v, fun g hg => hv g (hEF g hg), hf⟩

theorem conclusions_of_subset (hEF : ∀ f, E f → F f) {f : Formula}
    (h : conclusions rules facts F f) : conclusions rules facts E f := by
  intro B hB
  refine h B ⟨hB.facts, hB.closed, fun r hr hpre hjus => ?_⟩
  exact hB.rules r hr hpre (hjus.of_subset hEF)

/-- **An extension that says no more than another one is that one.** -/
theorem IsExtension.eq_of_subset (hE : IsExtension rules facts E) (hF : IsExtension rules facts F)
    (hEF : ∀ f, E f → F f) : E = F := by
  refine funext fun f => propext ⟨hEF f, fun hf => ?_⟩
  exact (hE f).2 (conclusions_of_subset hEF ((hF f).1 hf))

/-! ## Facts in conflict -/

theorem not_isGenerating_of_unsatisfiable (hE : ¬∃ v, E.HoldIn v) (i : Nat) :
    ¬IsGenerating rules E i := by
  rintro ⟨_, _, _, v, hv, _⟩
  exact hE ⟨v, hv⟩

section

variable {chosen : List Nat} (hfacts : ¬∃ v, Satisfies v facts)

include hfacts

theorem not_holdIn_stated : ¬∃ v, (Beliefs.stated rules facts chosen).closure.HoldIn v := by
  rintro ⟨v, hv⟩
  exact hfacts ⟨v, fun f hf => Beliefs.holdIn_closure.1 hv f (.inl hf)⟩

theorem IsExtensionBy.eq_nil (h : IsExtensionBy rules facts chosen) : chosen = [] :=
  List.eq_nil_iff_forall_not_mem.2 fun i hi =>
    not_isGenerating_of_unsatisfiable (not_holdIn_stated hfacts) i ((h.2 i).1 hi)

/-- Facts in conflict are an extension: every closed set with these facts has all formulas. -/
theorem isExtensionBy_nil : IsExtensionBy rules facts [] := by
  have hall : ∀ v, ¬(Beliefs.stated rules facts []).HoldIn v := fun v hv =>
    hfacts ⟨v, fun f hf => hv f (.inl hf)⟩
  refine ⟨fun f => ⟨fun _ B hB => ?_, fun _ v hv => absurd hv (hall v)⟩, fun i => ?_⟩
  · exact hB.closed f fun v hv => absurd ⟨v, fun g hg => hv g (hB.facts g hg)⟩ hfacts
  · exact iff_of_false List.not_mem_nil
      (not_isGenerating_of_unsatisfiable (not_holdIn_stated hfacts) i)

end

namespace Theory

section

variable {solver : Solver} (hs : solver.Decides)

include hs

theorem generators_of_unsatisfiable (t : Theory) (hfacts : ¬∃ v, Satisfies v t.facts) :
    (t.classical solver).generators = [[]] := by
  have hnodup := (t.classical solver).nodup_generators
  refine List.perm_singleton.1 ?_
  refine (List.perm_ext_iff_of_nodup hnodup (List.nodup_singleton [])).2 fun chosen => ?_
  rw [mem_generators_iff hs, List.mem_singleton]
  constructor
  · rintro ⟨-, hext⟩
    exact hext.eq_nil hfacts
  · rintro rfl
    exact ⟨List.nil_sublist _, isExtensionBy_nil hfacts⟩

theorem eq_of_entails (t : Theory) {as bs : List Nat}
    (has : as ∈ (t.classical solver).generators) (hbs : bs ∈ (t.classical solver).generators)
    (h : ∀ g ∈ t.formulasBy bs, Entails (t.formulasBy as) g) : as = bs := by
  have hE := ((t.mem_generators_iff hs as).1 has).2.1
  have hF := ((t.mem_generators_iff hs bs).1 hbs).2.1
  rw [← ofList_formulasBy] at hE hF
  have hsubset : ∀ f, (Beliefs.ofList (t.formulasBy bs)).closure f →
      (Beliefs.ofList (t.formulasBy as)).closure f :=
    fun f hf v hv => hf v fun g hg => h g hg v hv
  have heq := hF.eq_of_subset hE hsubset
  exact t.eq_of_closure_iff hs has hbs fun f => iff_of_eq (congrFun heq.symm f)

/-- **The listed extensions are alternatives**: none entails all formulas of one at another place of
the list.  If the facts are satisfiable, so is every extension; if they are not, the only extension
is the facts, and no rule is applied. -/
theorem extensions_alternatives (t : Theory) :
    let found := (t.extensions solver .classical).value
    (∀ (i j : Nat) fs gs, found[i]? = some fs → found[j]? = some gs → i ≠ j →
        ¬∀ g ∈ gs, Entails fs g) ∧
      ((∃ v, Satisfies v t.facts) → ∀ fs ∈ found, ∃ v, Satisfies v fs) ∧
      ((¬∃ v, Satisfies v t.facts) → found = [t.facts]) := by
  intro found
  have hfound : found = (t.classical solver).generators.map t.formulasBy := t.extensions_eq_map hs
  rw [hfound]
  refine ⟨?_, fun hfacts => List.forall_mem_map.2 fun chosen hchosen => ?_, fun hfacts => ?_⟩
  · intro i j fs gs hi hj hij hentails
    rw [List.getElem?_map, Option.map_eq_some_iff] at hi hj
    obtain ⟨as, hi, rfl⟩ := hi
    obtain ⟨bs, hj, rfl⟩ := hj
    obtain rfl := t.eq_of_entails hs (List.mem_of_getElem? hi) (List.mem_of_getElem? hj) hentails
    refine hij ((List.getElem?_inj ?_ (t.classical solver).nodup_generators).1 (hi.trans hj.symm))
    exact (List.getElem?_eq_some_iff.1 hi).1
  · have hholds := ((t.mem_generators_iff hs chosen).1 hchosen).2.exists_holdIn hfacts
    rw [← ofList_formulasBy] at hholds
    exact hholds
  · rw [t.generators_of_unsatisfiable hs hfacts, List.map_singleton]
    exact congrArg (fun fs => [fs]) (List.append_nil t.facts)

end

/-- Of two rules in conflict either one makes an extension, neither of which entails the other;
with facts in conflict none of the rules is applied. -/
theorem extensions_alternatives_conflict :
    let rules : List Rule := [⟨.atom "bird", .atom "flies", .atom "flies"⟩,
      ⟨.atom "bird", .not (.atom "flies"), .not (.atom "flies")⟩]
    let fs : List Formula := [.atom "bird", .atom "flies"]
    let gs : List Formula := [.atom "bird", .not (.atom "flies")]
    let facts : List Formula := [.atom "bird", .not (.atom "bird")]
    solve.Decides ∧
      ((ofContent rules [.atom "bird"]).extensions solve .classical).value = [fs, gs] ∧
      ¬(∀ g ∈ gs, Entails fs g) ∧ ¬(∀ f ∈ fs, Entails gs f) ∧
      (∃ v, Satisfies v fs) ∧ (∃ v, Satisfies v gs) ∧
      ((ofContent rules facts).extensions solve .classical).value = [facts] := by
  intro rules fs gs facts
  have hfound :
      ((ofContent rules [.atom "bird"]).extensions solve .classical).value = [fs, gs] := by
    cbv
  have hsome : ∃ v, Satisfies v [Formula.atom "bird"] :=
    ⟨fun _ => true, List.forall_mem_singleton.2 rfl⟩
  have hnone : ¬∃ v, Satisfies v facts := by
    rintro ⟨v, hv⟩
    have hbird : v "bird" = true := hv _ List.mem_cons_self
    have hnot : (!v "bird") = true := hv _ (List.mem_cons_of_mem _ List.mem_cons_self)
    exact Bool.not_ne_self (v "bird") (hnot.trans hbird.symm)
  obtain ⟨hapart, hsatisfiable, -⟩ :=
    (ofContent rules [.atom "bird"]).extensions_alternatives solve_decides
  obtain ⟨-, -, hconflict⟩ := (ofContent rules facts).extensions_alternatives solve_decides
  rw [hfound] at hapart hsatisfiable
  have hall := hsatisfiable hsome
  refine ⟨solve_decides, hfound, ?_, ?_, ?_, ?_, hconflict hnone⟩
  · exact hapart 0 1 fs gs rfl rfl Nat.zero_ne_one
  · exact hapart 1 0 gs fs rfl rfl Nat.one_ne_zero
  · exact hall fs List.mem_cons_self
  · exact hall gs (List.mem_cons_of_mem _ List.mem_cons_self)

end Theory

end DefaultLogic
