import DefaultLogic.Proofs.Default.Saturation
import DefaultLogic.Proofs.Theory.Classical
import Mathlib.Computability.Primrec.List
import Mathlib.Data.List.Permutation

/-!
# Generated extensions are Reiter's

The test guesses the rules of an extension, judges justifications by what these rules say, and
saturates once.  Reiter's definition asks for a fixed point.

* `isSaturated_conclusions`: the least saturated set is saturated.
* `IsExtensionBy.exists_holdIn`: an extension of satisfiable facts is satisfiable.
* `mem_justified_indexed`: the rules that the test admits are the justified ones.
* `generates_iff_isExtensionBy`: **for every reading of a ground logic, rules pass the test exactly
  when they are the generating rules of one of Reiter's extensions.**
* `generates_iff_isExtension`: the same for classical theories.
-/

namespace DefaultLogic

open DefaultLogic.Sat

/-! ## Beliefs -/

namespace Beliefs

/-- The facts and the consequents of the rules with the given indices. -/
def stated (rules : List Rule) (facts : List Formula) (indices : List Nat) : Beliefs := fun f =>
  f ∈ facts ∨ ∃ i ∈ indices, ∃ r, rules[i]? = some r ∧ r.consequent = f

theorem holdIn_closure {B : Beliefs} {v : Valuation} : B.closure.HoldIn v ↔ B.HoldIn v :=
  ⟨fun h f hf => h f fun _ hv => hv f hf, fun h _ hf => hf v h⟩

theorem consistentWith_closure {B : Beliefs} {f : Formula} :
    B.closure.ConsistentWith f ↔ B.ConsistentWith f :=
  exists_congr fun _ => and_congr_left fun _ => holdIn_closure

end Beliefs

/-- Whether the rules with the given indices are exactly the generating rules of an extension that
they state together with the facts. -/
def IsExtensionBy (rules : List Rule) (facts : List Formula) (indices : List Nat) : Prop :=
  let E := (Beliefs.stated rules facts indices).closure
  IsExtension rules facts E ∧ ∀ i, i ∈ indices ↔ IsGenerating rules E i

theorem isSaturated_conclusions (rules : List Rule) (facts : List Formula) (E : Beliefs) :
    IsSaturated rules facts E (conclusions rules facts E) where
  facts f hf _ hB := hB.facts f hf
  closed f hf B hB := hB.closed f fun v hv => hf v fun g hg => hv g (hg B hB)
  rules r hr hpre hjus B hB := hB.rules r hr (hpre B hB) hjus

/-- **An extension of satisfiable facts is satisfiable**: no rule is justified by beliefs that are
not, so the facts would be all that they say. -/
theorem IsExtensionBy.exists_holdIn {rules : List Rule} {facts : List Formula} {chosen : List Nat}
    (h : IsExtensionBy rules facts chosen) (hfacts : ∃ v, Satisfies v facts) :
    ∃ v, (Beliefs.stated rules facts chosen).HoldIn v := by
  refine Classical.byContradiction fun hnone => ?_
  have hempty : ∀ i, i ∉ chosen := by
    intro i hi
    obtain ⟨_, _, _, v, hv, _⟩ := (h.2 i).1 hi
    exact hnone ⟨v, Beliefs.holdIn_closure.1 hv⟩
  obtain ⟨v, hv⟩ := hfacts
  refine hnone ⟨v, ?_⟩
  rintro f (hf | ⟨i, hi, _⟩)
  · exact hv f hf
  · exact absurd hi (hempty i)

/-! ## Translated rules -/

section

variable {m : Formula → Formula} {facts : List Formula} {rules : List Rule} {chosen : List Nat}

theorem getElem?_map_rule {i : Nat} {r' : Rule} :
    (rules.map (Rule.map m))[i]? = some r' ↔ ∃ r, rules[i]? = some r ∧ r.map m = r' := by
  rw [List.getElem?_map]
  exact Option.map_eq_some_iff

theorem isGenerating_iff {E : Beliefs} {i : Nat} :
    IsGenerating (rules.map (Rule.map m)) E i ↔
      ∃ r, rules[i]? = some r ∧ E (m r.prerequisite) ∧ E.ConsistentWith (m r.justification) := by
  constructor
  · rintro ⟨r', hr', hpre, hjus⟩
    obtain ⟨r, hr, rfl⟩ := getElem?_map_rule.1 hr'
    exact ⟨r, hr, hpre, hjus⟩
  · rintro ⟨r, hr, hpre, hjus⟩
    exact ⟨r.map m, getElem?_map_rule.2 ⟨r, hr, rfl⟩, hpre, hjus⟩

/-- After complete saturation, what the applied rules say entails just the least saturated set. -/
theorem conclusions_iff_of_isComplete {E : Beliefs} {rs bs : List (Rule × Nat)}
    (hrs : ∀ r, r ∈ rs ↔ rules[r.2]? = some r.1 ∧ E.ConsistentWith (m r.1.justification))
    (hbs : DefaultTheory.Applied m facts chosen rs [] bs)
    (hall : ∀ r ∈ rs, Applicable m facts bs r.1 → r ∈ bs) (f : Formula) :
    conclusions (rules.map (Rule.map m)) (facts.map m) E f ↔
      Entails ((basis facts bs).map m) f := by
  apply conclusions_iff hbs.grounded
  · intro r hr
    obtain ⟨hmem, hjus⟩ := (hrs r).1 (hbs.mem r hr).1
    exact ⟨List.mem_of_getElem? hmem, hjus⟩
  · intro r hr happ
    obtain ⟨i, hi⟩ := List.mem_iff_getElem?.1 hr.1
    exact ⟨i, hall (r, i) ((hrs (r, i)).2 ⟨hi, hr.2⟩) happ⟩

theorem stated_iff_of_indices {bs : List (Rule × Nat)} (hbs : ∀ b ∈ bs, rules[b.2]? = some b.1)
    (hindices : ∀ i, i ∈ chosen ↔ i ∈ bs.map Prod.snd) (f : Formula) :
    Beliefs.stated (rules.map (Rule.map m)) (facts.map m) chosen f ↔
      f ∈ (basis facts bs).map m := by
  rw [basis, List.map_append, List.mem_append]
  apply or_congr_right
  constructor
  · rintro ⟨i, hi, r', hr', rfl⟩
    obtain ⟨r, hr, rfl⟩ := getElem?_map_rule.1 hr'
    obtain ⟨b, hb, rfl⟩ := List.mem_map.1 ((hindices i).1 hi)
    obtain rfl : b.1 = r := Option.some.inj ((hbs b hb).symm.trans hr)
    exact List.mem_map_of_mem (List.mem_map.2 ⟨b, hb, rfl⟩)
  · intro hf
    obtain ⟨g, hg, rfl⟩ := List.mem_map.1 hf
    obtain ⟨b, hb, rfl⟩ := List.mem_map.1 hg
    have hi : b.2 ∈ chosen := (hindices b.2).2 (List.mem_map_of_mem hb)
    exact ⟨b.2, hi, b.1.map m, getElem?_map_rule.2 ⟨b.1, hbs b hb, rfl⟩, rfl⟩

end

namespace DefaultTheory

variable {T : Type}

theorem mem_consequents {t : DefaultTheory T} {chosen : List Nat} {f : Formula} :
    f ∈ t.consequents chosen ↔ ∃ i ∈ chosen, ∃ r, t.rules[i]? = some r ∧ r.consequent = f := by
  refine List.mem_filterMap.trans (exists_congr fun i => and_congr_right fun _ => ?_)
  exact Option.map_eq_some_iff

theorem holdIn_stated_iff {t : DefaultTheory T} {m : Formula → Formula} {facts : List Formula}
    (chosen : List Nat) (v : Valuation) :
    (Beliefs.stated (t.rules.map (Rule.map m)) (facts.map m) chosen).HoldIn v ↔
      Satisfies v ((facts ++ t.consequents chosen).map m) := by
  refine forall_congr' fun f => imp_congr_left ?_
  rw [List.map_append, List.mem_append]
  apply or_congr_right
  constructor
  · rintro ⟨i, hi, s', hs', rfl⟩
    obtain ⟨s, hs, rfl⟩ := getElem?_map_rule.1 hs'
    exact List.mem_map_of_mem (mem_consequents.2 ⟨i, hi, s, hs, rfl⟩)
  · intro hf
    obtain ⟨g, hg, rfl⟩ := List.mem_map.1 hf
    obtain ⟨i, hi, s, hs, rfl⟩ := mem_consequents.1 hg
    exact ⟨i, hi, s.map m, getElem?_map_rule.2 ⟨s, hs, rfl⟩, rfl⟩

variable [GroundLogic T] {R : Reading T} {m : Formula → Formula} {facts : List Formula}
  {t : DefaultTheory T}

/-! ## The test -/

theorem mem_justified_indexed (h : R.Reads m facts t.ground) (chosen : List Nat) (r : Rule × Nat) :
    r ∈ (justified t.indexed (t.extensionBy chosen)).value ↔
      t.rules[r.2]? = some r.1 ∧
        (Beliefs.stated (t.rules.map (Rule.map m)) (facts.map m) chosen).closure.ConsistentWith
          (m r.1.justification) := by
  have hreads : R.Reads m (facts ++ t.consequents chosen) (t.extensionBy chosen) :=
    R.addAll (t.consequents chosen) h
  rw [mem_justified hreads, indexed, List.mem_zipIdx_iff_getElem?, Beliefs.consistentWith_closure]
  refine and_congr_right fun _ => exists_congr fun v => and_congr_left fun _ => ?_
  exact (holdIn_stated_iff chosen v).symm

theorem value_generates (t : DefaultTheory T) (chosen : List Nat) :
    (t.generates chosen).value =
      let rs := (justified t.indexed (t.extensionBy chosen)).value
      if chosen.all (rs.map Prod.snd).contains then
        match (saturate chosen rs t.ground).value with
        | none => false
        | some applied => chosen.all applied.contains
      else false := by
  rw [generates, generatesIn, extensionByIn_logged, pure_bind, Logged.value_bind]
  generalize (justified t.indexed (t.extensionBy chosen)).value = rs
  dsimp only
  split
  · rw [Logged.value_bind]
    cases (saturate chosen rs t.ground).value <;> rfl
  · rfl

theorem all_contains {is js : List Nat} : is.all js.contains = true ↔ is ⊆ js := by
  simp [List.all_eq_true, List.subset_def]

/-- The test passes when the chosen rules are justified and saturation applies all of them. -/
theorem generates_iff (t : DefaultTheory T) (chosen : List Nat) :
    (t.generates chosen).value = true ↔
      chosen ⊆ (justified t.indexed (t.extensionBy chosen)).value.map Prod.snd ∧
        ∃ applied, (saturate chosen (justified t.indexed (t.extensionBy chosen)).value
          t.ground).value = some applied ∧ chosen ⊆ applied := by
  rw [value_generates]
  generalize (justified t.indexed (t.extensionBy chosen)).value = rs
  dsimp only
  by_cases hall : chosen.all (rs.map Prod.snd).contains = true
  · rw [if_pos hall]
    refine Iff.trans ?_ (and_iff_right (all_contains.1 hall)).symm
    cases (saturate chosen rs t.ground).value with
    | none => exact iff_of_false Bool.false_ne_true fun ⟨_, h, _⟩ => Option.some_ne_none _ h.symm
    | some applied =>
      rw [all_contains]
      constructor
      · intro h
        exact ⟨applied, rfl, h⟩
      · rintro ⟨_, hsome, h⟩
        rw [Option.some.inj hsome]
        exact h
  · rw [if_neg hall]
    exact iff_of_false Bool.false_ne_true fun h => hall (all_contains.2 h.1)

/-! ## The fixed point -/

/-- Rules that pass the test generate an extension: it is what saturation concludes. -/
theorem isExtensionBy_of_generates (h : R.Reads m facts t.ground) {chosen : List Nat}
    (ht : (t.generates chosen).value = true) :
    IsExtensionBy (t.rules.map (Rule.map m)) (facts.map m) chosen := by
  have hrs := mem_justified_indexed h chosen
  obtain ⟨-, applied, hsaturate, hchosen⟩ := (generates_iff t chosen).1 ht
  have hspec := saturate_facts chosen h (justified t.indexed (t.extensionBy chosen)).value
  rw [hsaturate] at hspec
  obtain ⟨bs, hbs, rfl, hall⟩ := hspec
  have hrule : ∀ b ∈ bs, t.rules[b.2]? = some b.1 := fun b hb => ((hrs b).1 (hbs.mem b hb).1).1
  have hindices : ∀ i, i ∈ chosen ↔ i ∈ bs.map Prod.snd := by
    intro i
    constructor
    · intro hi
      exact hchosen hi
    · intro hi
      obtain ⟨b, hb, rfl⟩ := List.mem_map.1 hi
      exact (hbs.mem b hb).2
  have hstated : ∀ f, (Beliefs.stated (t.rules.map (Rule.map m)) (facts.map m) chosen).closure f ↔
      Entails ((basis facts bs).map m) f := by
    intro f
    refine forall_congr' fun v => imp_congr_left (forall_congr' fun g => imp_congr_left ?_)
    exact stated_iff_of_indices hrule hindices g
  constructor
  · intro f
    rw [hstated, conclusions_iff_of_isComplete hrs hbs hall]
  · intro i
    rw [hindices, isGenerating_iff]
    constructor
    · intro hi
      obtain ⟨b, hb, rfl⟩ := List.mem_map.1 hi
      refine ⟨b.1, hrule b hb, (hstated _).2 ?_, ((hrs b).1 (hbs.mem b hb).1).2⟩
      exact hbs.grounded.applicable hb
    · rintro ⟨r, hr, hpre, hjus⟩
      have happ : Applicable m facts bs r := (hstated _).1 hpre
      exact List.mem_map.2 ⟨(r, i), hall (r, i) ((hrs (r, i)).2 ⟨hr, hjus⟩) happ, rfl⟩

/-- The generating rules of an extension pass the test: a rule that blocked saturation would be one
of them, and so would a rule that saturation left out. -/
theorem generates_of_isExtensionBy (h : R.Reads m facts t.ground) {chosen : List Nat}
    (hext : IsExtensionBy (t.rules.map (Rule.map m)) (facts.map m) chosen) :
    (t.generates chosen).value = true := by
  obtain ⟨hfixed, hgenerating⟩ := hext
  have hrs := mem_justified_indexed h chosen
  have hspec := saturate_facts chosen h (justified t.indexed (t.extensionBy chosen)).value
  rw [generates_iff]
  constructor
  · intro i hi
    obtain ⟨r, hr, -, hjus⟩ := isGenerating_iff.1 ((hgenerating i).1 hi)
    exact List.mem_map.2 ⟨(r, i), (hrs (r, i)).2 ⟨hr, hjus⟩, rfl⟩
  · cases hv : (saturate chosen (justified t.indexed (t.extensionBy chosen)).value
      t.ground).value with
    | none =>
      rw [hv] at hspec
      obtain ⟨bs, hbs, r, hr, hrc, happ⟩ := hspec
      obtain ⟨hrule, hjus⟩ := (hrs r).1 hr
      refine absurd ((hgenerating r.2).2 (isGenerating_iff.2 ⟨r.1, hrule, ?_, hjus⟩)) hrc
      rw [hfixed]
      intro B hB
      have hbasis := hbs.grounded.mem_of_isSaturated hB fun b hb =>
        ⟨List.mem_of_getElem? ((hrs b).1 (hbs.mem b hb).1).1, ((hrs b).1 (hbs.mem b hb).1).2⟩
      exact hB.closed _ fun v hv => happ v fun g hg => hv g (hbasis g hg)
    | some applied =>
      rw [hv] at hspec
      obtain ⟨bs, hbs, rfl, hall⟩ := hspec
      refine ⟨_, rfl, ?_⟩
      intro i hi
      obtain ⟨r, hr, hpre, hjus⟩ := isGenerating_iff.1 ((hgenerating i).1 hi)
      rw [hfixed, conclusions_iff_of_isComplete hrs hbs hall] at hpre
      exact List.mem_map.2 ⟨(r, i), hall (r, i) ((hrs (r, i)).2 ⟨hr, hjus⟩) hpre, rfl⟩

/-- **Rules pass the test exactly when they are the generating rules of one of Reiter's
extensions**, of the rules and facts as the ground logic takes them. -/
theorem generates_iff_isExtensionBy (h : R.Reads m facts t.ground) (chosen : List Nat) :
    (t.generates chosen).value = true ↔
      IsExtensionBy (t.rules.map (Rule.map m)) (facts.map m) chosen :=
  ⟨isExtensionBy_of_generates h, generates_of_isExtensionBy h⟩

theorem satisfiable_of_generates (h : R.Reads m facts t.ground) {chosen : List Nat}
    (ht : (t.generates chosen).value = true) (hfacts : ∃ v, Satisfies v (facts.map m)) :
    ∃ v, Satisfies v ((facts ++ t.consequents chosen).map m) := by
  obtain ⟨v, hv⟩ := (isExtensionBy_of_generates h ht).exists_holdIn hfacts
  exact ⟨v, (holdIn_stated_iff chosen v).1 hv⟩

/-! ## Classical theories -/

/-- **With a solver that decides, chosen rules pass the test exactly when what they say together
with the facts is one of Reiter's extensions and they are all its generating rules**, in whatever
order and however often they are chosen. -/
theorem generates_iff_isExtension {solver : Solver} (hs : solver.Decides) (rules : List Rule)
    (facts : List Formula) (chosen : List Nat) :
    ((⟨rules, GroundLogic.addAll {} facts⟩ : DefaultTheory (ClassicalTheory solver)).generates
        chosen).value = true ↔ IsExtensionBy rules facts chosen := by
  let t : DefaultTheory (ClassicalTheory solver) := ⟨rules, GroundLogic.addAll {} facts⟩
  have hreads : (ClassicalTheory.reading hs).Reads id ([] ++ facts) t.ground :=
    (ClassicalTheory.reading hs).addAll facts (ClassicalTheory.reads_empty hs)
  have h := generates_iff_isExtensionBy hreads chosen
  have hrules : rules.map (Rule.map id) = rules := List.map_id _
  rw [List.nil_append, List.map_id, hrules] at h
  exact h

/-- Of two rules in conflict either one makes an extension, and only alone. -/
theorem generates_iff_isExtension_conflict :
    let rules : List Rule := [⟨.atom "bird", .atom "flies", .atom "flies"⟩,
      ⟨.atom "penguin", .not (.atom "flies"), .not (.atom "flies")⟩]
    let facts : List Formula := [.atom "penguin", .imply (.atom "penguin") (.atom "bird")]
    solve.Decides ∧ IsExtensionBy rules facts [0] ∧ IsExtensionBy rules facts [1, 1] ∧
      ¬IsExtensionBy rules facts [] ∧ ¬IsExtensionBy rules facts [1, 0] := by
  intro rules facts
  have hs : solve.Decides := solve_decides
  have h := generates_iff_isExtension hs rules facts
  refine ⟨hs, (h [0]).1 ?_, (h [1, 1]).1 ?_, mt (h []).2 (ne_true_of_eq_false ?_),
    mt (h [1, 0]).2 (ne_true_of_eq_false ?_)⟩
  · cbv
  · cbv
  · cbv
  · cbv

end DefaultTheory

end DefaultLogic
