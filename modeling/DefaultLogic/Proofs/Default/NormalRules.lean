import DefaultLogic.Proofs.Default.Enumeration

/-!
# Normal rules have an extension

A normal rule is justified by its own consequent.  Once it was applied consistently it stays
justified, whatever normal rules are applied after it, so rules can be applied until none is left
that applies.

* `IsProcess.snoc`: one more rule that applies is applied.
* `exists_isClosed`: **rules can be applied until no further one applies.**
* `exists_isExtensionBy_of_isNormal`: then they are the generating rules of an extension.
* `Theory.hasExtension_of_isNormal`: **so the search of a normal classical theory finds one.**
-/

namespace DefaultLogic

open DefaultLogic.Sat

variable {m : Formula → Formula} {rules : List Rule} {facts : List Formula}
  {as bs : List (Rule × Nat)}

/-- Rules that were applied one after the other, each consistently with what was said before. -/
structure IsProcess (m : Formula → Formula) (rules : List Rule) (facts : List Formula)
    (as : List (Rule × Nat)) : Prop where
  grounded : Grounded m facts as
  mem : ∀ r ∈ as, rules[r.2]? = some r.1
  satisfiable : as ≠ [] → ∃ v, Satisfies v ((basis facts as).map m)

structure CanFollow (m : Formula → Formula) (facts : List Formula) (as : List (Rule × Nat))
    (r : Rule) : Prop where
  applicable : Applicable m facts as r
  consistent : Consistent ((basis facts as).map m) (m r.consequent)

theorem isProcess_nil : IsProcess m rules facts [] :=
  ⟨.nil, fun _ hr => absurd hr List.not_mem_nil, fun h => absurd rfl h⟩

/-- **One more rule that can be applied is applied.** -/
theorem IsProcess.snoc (h : IsProcess m rules facts as) {r : Rule × Nat}
    (hr : rules[r.2]? = some r.1) (hfollow : CanFollow m facts as r.1) :
    IsProcess m rules facts (as ++ [r]) where
  grounded := h.grounded.snoc hfollow.applicable
  mem := List.forall_mem_append.2 ⟨h.mem, List.forall_mem_singleton.2 hr⟩
  satisfiable _ := by
    obtain ⟨v, hv, hconsequent⟩ := hfollow.consistent
    refine ⟨v, ?_⟩
    rw [basis_append, List.map_append, satisfies_append]
    exact ⟨hv, satisfies_singleton.2 hconsequent⟩

/-- **Rules can be applied until no further one can be.**  The induction is on the rules that
wait. -/
theorem exists_isClosed (waiting : List (Rule × Nat)) (h : IsProcess m rules facts as)
    (hwaiting : ∀ r : Rule × Nat, rules[r.2]? = some r.1 → r ∈ as ∨ r ∈ waiting) :
    ∃ bs, IsProcess m rules facts bs ∧
      ∀ r : Rule × Nat, rules[r.2]? = some r.1 → CanFollow m facts bs r.1 → r ∈ bs := by
  induction hn : waiting.length generalizing as waiting with
  | zero =>
    obtain rfl := List.eq_nil_of_length_eq_zero hn
    exact ⟨as, h, fun r hr _ => (hwaiting r hr).resolve_right List.not_mem_nil⟩
  | succ n ih =>
    by_cases hnext : ∃ r ∈ waiting, rules[r.2]? = some r.1 ∧ CanFollow m facts as r.1
    · obtain ⟨r, hmem, hr, hfollow⟩ := hnext
      refine ih (waiting.erase r) (h.snoc hr hfollow) (fun q hq => ?_) ?_
      · rcases hwaiting q hq with hq | hq
        · exact .inl (List.mem_append_left _ hq)
        · by_cases heq : q = r
          · exact .inl (List.mem_append_right _ (List.mem_singleton.2 heq))
          · exact .inr ((List.mem_erase_of_ne heq).2 hq)
      · rw [List.length_erase_of_mem hmem, hn, Nat.add_sub_cancel]
    · refine ⟨as, h, fun r hr hfollow => (hwaiting r hr).resolve_right fun hmem => ?_⟩
      exact hnext ⟨r, hmem, hr, hfollow⟩

theorem IsProcess.isExtension (hnormal : ∀ r ∈ rules, r.isNormal = true)
    (h : IsProcess m rules facts bs)
    (hclosed : ∀ r : Rule × Nat, rules[r.2]? = some r.1 → CanFollow m facts bs r.1 → r ∈ bs) :
    IsExtension (rules.map (Rule.map m)) (facts.map m)
      (Beliefs.ofList ((basis facts bs).map m)).closure := by
  have hjustification : ∀ r ∈ rules, r.justification = r.consequent :=
    fun r hr => of_decide_eq_true (hnormal r hr)
  have hjustified : ∀ r ∈ bs,
      Justified m rules (Beliefs.ofList ((basis facts bs).map m)).closure r.1 := by
    intro r hr
    have hmem : r.1 ∈ rules := List.mem_of_getElem? (h.mem r hr)
    obtain ⟨v, hv⟩ := h.satisfiable (List.ne_nil_of_mem hr)
    refine ⟨hmem, Beliefs.consistentWith_closure.2 ⟨v, hv, ?_⟩⟩
    rw [hjustification r.1 hmem]
    refine hv _ (List.mem_map_of_mem (List.mem_append_right _ ?_))
    exact List.mem_map_of_mem (f := fun r : Rule × Nat => r.1.consequent) hr
  have hall : ∀ r, Justified m rules (Beliefs.ofList ((basis facts bs).map m)).closure r →
      Applicable m facts bs r → ∃ i, (r, i) ∈ bs := by
    rintro r ⟨hmem, hconsistent⟩ happlicable
    obtain ⟨i, hi⟩ := List.mem_iff_getElem?.1 hmem
    rw [Beliefs.consistentWith_closure, hjustification r hmem] at hconsistent
    exact ⟨i, hclosed (r, i) hi ⟨happlicable, hconsistent⟩⟩
  intro f
  exact (conclusions_iff h.grounded hjustified hall f).symm

/-- **Normal rules are the generating rules of some extension.** -/
theorem exists_isExtensionBy_of_isNormal (m : Formula → Formula) (facts : List Formula)
    (hnormal : ∀ r ∈ rules, r.isNormal = true) :
    ∃ chosen, chosen.Sublist (List.range rules.length) ∧
      IsExtensionBy (rules.map (Rule.map m)) (facts.map m) chosen := by
  have hnil : IsProcess m rules facts [] := isProcess_nil
  have hwaiting : ∀ r : Rule × Nat, rules[r.2]? = some r.1 → r ∈ ([] : List (Rule × Nat)) ∨
      r ∈ rules.zipIdx := fun r hr => .inr (List.mem_zipIdx_iff_getElem?.2 hr)
  obtain ⟨bs, hbs, hclosed⟩ := exists_isClosed rules.zipIdx hnil hwaiting
  obtain ⟨chosen, hsub, hext, -⟩ := (hbs.isExtension hnormal hclosed).exists_isExtensionBy
  rw [List.length_map] at hsub
  exact ⟨chosen, hsub, hext⟩

namespace Theory

/-- **A classical theory whose rules are all normal has an extension**, whether or not its facts are
satisfiable and its rules in conflict: the search is done at one, and lists one. -/
theorem hasExtension_of_isNormal {solver : Solver} (hs : solver.Decides) (t : Theory)
    (hnormal : ∀ r ∈ t.rules, r.isNormal = true) :
    (t.hasExtension solver .classical).value = true ∧
      (t.extensions solver .classical).value ≠ [] := by
  obtain ⟨chosen, hsub, hext⟩ := exists_isExtensionBy_of_isNormal id t.facts hnormal
  have hrules : t.rules.map (Rule.map id) = t.rules := List.map_id _
  rw [hrules, List.map_id] at hext
  have hgenerators : (t.classical solver).generators ≠ [] :=
    List.ne_nil_of_mem ((t.mem_generators_iff hs chosen).2 ⟨hsub, hext⟩)
  constructor
  · rw [hasExtension, Logged.value_map, DefaultTheory.value_search_exists]
    exact hgenerators
  · rw [extensions_eq_map hs, Ne, List.map_eq_nil_iff]
    exact hgenerators

/-- Rules in conflict have an extension, where one of them is left out, and so do facts in
conflict, where all rules are; a rule that is not normal may do without. -/
theorem hasExtension_of_isNormal_conflict :
    let flies : Rule := ⟨.atom "bird", .atom "flies", .atom "flies"⟩
    let stays : Rule := ⟨.atom "bird", .not (.atom "flies"), .not (.atom "flies")⟩
    let refutes : Rule := ⟨.atom "bird", .atom "flies", .not (.atom "flies")⟩
    let t : Theory := ofContent [flies, stays] [.atom "bird"]
    let u : Theory := ofContent [flies, stays] [.atom "bird", .not (.atom "bird")]
    solve.Decides ∧ (∀ r ∈ t.rules, r.isNormal = true) ∧
      (t.hasExtension solve .classical).value = true ∧
      (t.extensions solve .classical).value ≠ [] ∧
      (u.hasExtension solve .classical).value = true ∧
      (u.extensions solve .classical).value ≠ [] ∧
      ((ofContent [refutes] [.atom "bird"]).hasExtension solve .classical).value = false := by
  intro flies stays refutes t u
  have hnormal : ∀ r ∈ [flies, stays], r.isNormal = true :=
    List.forall_mem_cons.2 ⟨rfl, List.forall_mem_singleton.2 rfl⟩
  obtain ⟨ht, htlist⟩ := t.hasExtension_of_isNormal solve_decides hnormal
  obtain ⟨hu, hulist⟩ := u.hasExtension_of_isNormal solve_decides hnormal
  refine ⟨solve_decides, hnormal, ht, htlist, hu, hulist, ?_⟩
  cbv

end Theory

end DefaultLogic
