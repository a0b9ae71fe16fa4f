import DefaultLogic.Default.Theory
import DefaultLogic.Proofs.Default.Accepted
import DefaultLogic.Proofs.Default.Reiter

/-!
# All extensions of a classical theory

The search goes through sets of rules; an extension is any set of beliefs.  The two meet because an
extension is what the facts and its generating rules say.

* `IsExtension.iff_stated`: an extension is the closure of the facts and of the consequents of its
  generating rules.
* `IsExtension.exists_isExtensionBy`: so every extension is that of some chosen rules.
* `Theory.mem_generators_iff`: the search stops at the generating rules of extensions.
* `Theory.extensions_classical`: **the search lists every extension of Reiter's once and nothing
  else, by the number of its generating rules and then by their indices.**
-/

namespace DefaultLogic

open DefaultLogic.Sat

/-! ## What an extension says -/

section

variable {rules : List Rule} {facts : List Formula} {E : Beliefs} {chosen : List Nat}

theorem IsExtension.isSaturated (h : IsExtension rules facts E) : IsSaturated rules facts E E := by
  have heq : conclusions rules facts E = E := funext fun f => propext (h f).symm
  have hsat := isSaturated_conclusions rules facts E
  rwa [heq] at hsat

theorem IsExtension.of_stated (h : IsExtension rules facts E)
    (hchosen : ∀ i, i ∈ chosen ↔ IsGenerating rules E i) {f : Formula}
    (hf : Beliefs.stated rules facts chosen f) : E f := by
  obtain hf | ⟨i, hi, r, hr, rfl⟩ := hf
  · exact h.isSaturated.facts f hf
  · obtain ⟨s, hs, hpre, hjus⟩ := (hchosen i).1 hi
    obtain rfl : r = s := Option.some.inj (hr.symm.trans hs)
    exact h.isSaturated.rules r (List.mem_of_getElem? hr) hpre hjus

/-- What the generating rules state is saturated once it is closed: a rule that applies to it
applies to the extension, so it is one of them. -/
theorem IsExtension.isSaturated_stated (h : IsExtension rules facts E)
    (hchosen : ∀ i, i ∈ chosen ↔ IsGenerating rules E i) :
    IsSaturated rules facts E (Beliefs.stated rules facts chosen).closure := by
  refine ⟨fun f hf v hv => hv f (.inl hf), fun f hf v hv => hf v fun g hg => hg v hv, ?_⟩
  intro r hr hpre hjus v hv
  obtain ⟨i, hi⟩ := List.mem_iff_getElem?.1 hr
  have hE : E r.prerequisite :=
    h.isSaturated.closed _ fun w hw => hpre w fun g hg => hw g (h.of_stated hchosen hg)
  exact hv _ (.inr ⟨i, (hchosen i).2 ⟨r, hi, hE, hjus⟩, r, hi, rfl⟩)

/-- **An extension is what the facts and its generating rules say.** -/
theorem IsExtension.iff_stated (h : IsExtension rules facts E)
    (hchosen : ∀ i, i ∈ chosen ↔ IsGenerating rules E i) (f : Formula) :
    E f ↔ (Beliefs.stated rules facts chosen).closure f := by
  constructor
  · intro hf
    exact (h f).1 hf _ (h.isSaturated_stated hchosen)
  · intro hf
    exact h.isSaturated.closed f fun v hv => hf v fun g hg => hv g (h.of_stated hchosen hg)

theorem IsExtension.exists_isExtensionBy (h : IsExtension rules facts E) :
    ∃ chosen, chosen.Sublist (List.range rules.length) ∧ IsExtensionBy rules facts chosen ∧
      ∀ f, E f ↔ (Beliefs.stated rules facts chosen).closure f := by
  classical
  let chosen := (List.range rules.length).filter fun i => decide (IsGenerating rules E i)
  have hchosen : ∀ i, i ∈ chosen ↔ IsGenerating rules E i := by
    intro i
    rw [List.mem_filter, List.mem_range, decide_eq_true_iff, and_iff_right_iff_imp]
    rintro ⟨r, hr, -⟩
    exact (List.getElem?_eq_some_iff.1 hr).1
  have hstated := h.iff_stated hchosen
  have heq : (Beliefs.stated rules facts chosen).closure = E :=
    funext fun f => propext (hstated f).symm
  refine ⟨chosen, List.filter_sublist, ?_, hstated⟩
  rw [IsExtensionBy, heq]
  exact ⟨h, hchosen⟩

theorem IsExtensionBy.eq_of_closure_eq {as bs : List Nat} (has : IsExtensionBy rules facts as)
    (hbs : IsExtensionBy rules facts bs) (hsubA : as.Sublist (List.range rules.length))
    (hsubB : bs.Sublist (List.range rules.length))
    (h : (Beliefs.stated rules facts as).closure = (Beliefs.stated rules facts bs).closure) :
    as = bs := by
  obtain ⟨-, hgenA⟩ := has
  obtain ⟨-, hgenB⟩ := hbs
  rw [h] at hgenA
  exact Subsets.eq_of_subset_subset List.nodup_range hsubA hsubB
    (fun i hi => (hgenB i).2 ((hgenA i).1 hi)) (fun i hi => (hgenA i).2 ((hgenB i).1 hi))

end

/-! ## What the search finds -/

namespace DefaultTheory

variable {T : Type} [GroundLogic T]

theorem pairwise_generators (t : DefaultTheory T) :
    t.generators.Pairwise (Subsets.Before id) :=
  (Subsets.pairwise_bySize List.pairwise_lt_range).filter _

theorem nodup_generators (t : DefaultTheory T) : t.generators.Nodup := by
  refine t.pairwise_generators.imp ?_
  rintro as _ h rfl
  exact Subsets.not_before_self id as h

theorem value_search_collect (t : DefaultTheory T) :
    (t.search Visitor.collect []).value = .more (t.found.map GroundLogic.formulas) := by
  rw [value_search_found, Subsets.value_visitList_of_more fun _ _ _ => rfl,
    List.foldl_append_eq_append, List.nil_append, ← List.flatMap_def, ← List.map_eq_flatMap]

theorem value_search_exists (t : DefaultTheory T) :
    (t.search Visitor.exists? false).value.state = true ↔ t.generators ≠ [] := by
  rw [value_search]
  cases t.generators with
  | nil => exact iff_of_false Bool.false_ne_true fun h => h rfl
  | cons chosen rest => exact iff_of_true rfl (List.cons_ne_nil chosen rest)

theorem formulas_extensionBy {R : Reading T} {m : Formula → Formula} {facts : List Formula}
    {t : DefaultTheory T} (h : R.Reads m facts t.ground) (chosen : List Nat) :
    GroundLogic.formulas (t.extensionBy chosen) = facts ++ t.consequents chosen :=
  R.formulas (R.addAll (t.consequents chosen) h)

end DefaultTheory

namespace Theory

/-- The facts and the consequents of the rules with the given indices. -/
def formulasBy (t : Theory) (chosen : List Nat) : List Formula :=
  t.facts ++ chosen.filterMap fun i => t.rules[i]?.map Rule.consequent

theorem ofList_formulasBy (t : Theory) (chosen : List Nat) :
    Beliefs.ofList (t.formulasBy chosen) = Beliefs.stated t.rules t.facts chosen := by
  funext f
  refine propext (List.mem_append.trans (or_congr_right ?_))
  exact DefaultTheory.mem_consequents (t := t.classical silent)

section

variable {solver : Solver} (hs : solver.Decides)

theorem extensions_classical_eq (t : Theory) :
    (t.extensions solver .classical).value =
      (t.classical solver).found.map GroundLogic.formulas := by
  rw [extensions, Logged.value_map, DefaultTheory.value_search_collect]
  rfl

theorem reads_classical (t : Theory) :
    (ClassicalTheory.reading hs).Reads id t.facts (t.classical solver).ground :=
  (ClassicalTheory.reading hs).addAll t.facts (ClassicalTheory.reads_empty hs)

include hs

theorem extensions_eq_map (t : Theory) :
    (t.extensions solver .classical).value = (t.classical solver).generators.map t.formulasBy := by
  rw [extensions_classical_eq, DefaultTheory.found, List.map_map]
  exact List.map_congr_left fun chosen _ =>
    DefaultTheory.formulas_extensionBy (t.reads_classical hs) chosen

theorem mem_generators_iff (t : Theory) (chosen : List Nat) :
    chosen ∈ (t.classical solver).generators ↔
      chosen.Sublist (List.range t.rules.length) ∧ IsExtensionBy t.rules t.facts chosen := by
  rw [DefaultTheory.generators, List.mem_filter, Subsets.mem_bySize]
  exact and_congr_right fun _ =>
    DefaultTheory.generates_iff_isExtension hs t.rules t.facts chosen

theorem exists_generators (t : Theory) {E : Beliefs} (hE : IsExtension t.rules t.facts E) :
    ∃ chosen ∈ (t.classical solver).generators,
      ∀ f, E f ↔ (Beliefs.ofList (t.formulasBy chosen)).closure f := by
  obtain ⟨chosen, hsub, hext, hstated⟩ := hE.exists_isExtensionBy
  refine ⟨chosen, (t.mem_generators_iff hs chosen).2 ⟨hsub, hext⟩, ?_⟩
  rw [ofList_formulasBy]
  exact hstated

theorem eq_of_closure_iff (t : Theory) {as bs : List Nat}
    (has : as ∈ (t.classical solver).generators) (hbs : bs ∈ (t.classical solver).generators)
    (h : ∀ f, (Beliefs.ofList (t.formulasBy as)).closure f ↔
      (Beliefs.ofList (t.formulasBy bs)).closure f) : as = bs := by
  rw [ofList_formulasBy, ofList_formulasBy] at h
  obtain ⟨hsubA, hextA⟩ := (t.mem_generators_iff hs as).1 has
  obtain ⟨hsubB, hextB⟩ := (t.mem_generators_iff hs bs).1 hbs
  exact hextA.eq_of_closure_eq hextB hsubA hsubB (funext fun f => propext (h f))

/-- **The search lists every extension of Reiter's exactly once and nothing else**, as the facts
and the consequents of its generating rules.  Extensions with fewer generating rules come first, and
those with as many come in the order of the rules' indices. -/
theorem extensions_classical (t : Theory) :
    let found := (t.extensions solver .classical).value
    (∃ generators : List (List Nat), found = generators.map t.formulasBy ∧
      generators.Pairwise (Subsets.Before id) ∧
      ∀ chosen ∈ generators, let E := (Beliefs.ofList (t.formulasBy chosen)).closure
        IsExtension t.rules t.facts E ∧ chosen.Pairwise (· < ·) ∧
          ∀ i, i ∈ chosen ↔ IsGenerating t.rules E i) ∧
    ∀ E, IsExtension t.rules t.facts E →
      ∃! k : Nat, ∃ fs, found[k]? = some fs ∧ ∀ f, E f ↔ (Beliefs.ofList fs).closure f := by
  intro found
  have hfound : found = (t.classical solver).generators.map t.formulasBy := t.extensions_eq_map hs
  refine ⟨⟨_, hfound, (t.classical solver).pairwise_generators, ?_⟩, ?_⟩
  · intro chosen hchosen
    obtain ⟨hsub, hext, hgenerating⟩ := (t.mem_generators_iff hs chosen).1 hchosen
    rw [← t.ofList_formulasBy] at hext hgenerating
    exact ⟨hext, List.pairwise_lt_range.sublist hsub, hgenerating⟩
  · intro E hE
    obtain ⟨chosen, hchosen, hclosure⟩ := t.exists_generators hs hE
    obtain ⟨k, hk⟩ := List.mem_iff_getElem?.1 hchosen
    rw [hfound]
    refine ⟨k, ⟨t.formulasBy chosen, ?_, hclosure⟩, ?_⟩
    · rw [List.getElem?_map, hk, Option.map_some]
    · rintro j ⟨fs, hfs, hclosure'⟩
      rw [List.getElem?_map, Option.map_eq_some_iff] at hfs
      obtain ⟨other, hj, rfl⟩ := hfs
      have hother : other = chosen := t.eq_of_closure_iff hs (List.mem_of_getElem? hj) hchosen
        fun f => (hclosure' f).symm.trans (hclosure f)
      rw [hother] at hj
      have hnodup := (t.classical solver).nodup_generators
      exact (List.getElem?_inj (List.getElem?_eq_some_iff.1 hj).1 hnodup).1 (hj.trans hk.symm)

end

/-- Two rules in conflict have two extensions, and what either says is listed once. -/
theorem extensions_classical_conflict :
    let t : Theory := Theory.ofContent [⟨.atom "bird", .atom "flies", .atom "flies"⟩,
      ⟨.atom "bird", .not (.atom "flies"), .not (.atom "flies")⟩] [.atom "bird"]
    let found : List (List Formula) :=
      [[.atom "bird", .atom "flies"], [.atom "bird", .not (.atom "flies")]]
    solve.Decides ∧ (t.extensions solve .classical).value = found ∧ ∀ fs ∈ found,
      IsExtension t.rules t.facts (Beliefs.ofList fs).closure ∧
        ∃! k : Nat, ∃ gs, found[k]? = some gs ∧
          ∀ f, (Beliefs.ofList fs).closure f ↔ (Beliefs.ofList gs).closure f := by
  intro t found
  have hfound : (t.extensions solve .classical).value = found := by
    cbv
  have h := t.extensions_classical solve_decides
  dsimp only at h
  rw [hfound] at h
  obtain ⟨⟨generators, hgenerators, -, hext⟩, honce⟩ := h
  refine ⟨solve_decides, hfound, fun fs hfs => ?_⟩
  rw [hgenerators] at hfs
  obtain ⟨chosen, hchosen, rfl⟩ := List.mem_map.1 hfs
  have hE := (hext chosen hchosen).1
  exact ⟨hE, honce _ hE⟩

end Theory

end DefaultLogic
