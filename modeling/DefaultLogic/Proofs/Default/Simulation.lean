import DefaultLogic.Proofs.Default.Accepted
import DefaultLogic.Proofs.Default.Reiter

/-!
# Simulations between ground logics

A simulation relates theories of two ground logics, the second of which takes formulas through a
translation.  Related theories answer alike and stay related.

* `entailsAll`, `accept?_rel`: so they accept the same extensions,
* `value_justified_map`, `value_applyRules_rel`, `value_saturate_eq`: apply the same rules,
* `value_generates_eq`: **and find the same rules to generate extensions.**
-/

namespace DefaultLogic

/-- Related theories answer alike about known formulas, and checks and additions keep them related.
-/
structure Simulation (T U : Type) [GroundLogic T] [GroundLogic U] (m : Formula → Formula)
    (Known : Formula → Prop) where
  Related : T → U → Prop
  add {x : T} {y : U} {f : Formula} : Known f → Related x y →
    Related (GroundLogic.add x f) (GroundLogic.add y (m f))
  satisfiable {x : T} {y : U} {f? : Option Formula} : (∀ f ∈ f?, Known f) → Related x y →
    (GroundLogic.satisfiable f? x).value.1 = (GroundLogic.satisfiable (f?.map m) y).value.1 ∧
      Related (GroundLogic.satisfiable f? x).value.2 (GroundLogic.satisfiable (f?.map m) y).value.2
  entails {x : T} {y : U} {f : Formula} : Known f → Related x y →
    (GroundLogic.entails f x).value.1 = (GroundLogic.entails (m f) y).value.1 ∧
      Related (GroundLogic.entails f x).value.2 (GroundLogic.entails (m f) y).value.2

theorem rel_map {α β α' β' : Type} {R : α → β → Prop} {R' : α' → β' → Prop} {f : α → α'}
    {g : β → β'} (hfg : ∀ a b, R a b → R' (f a) (g b)) {a? : Option α} {b? : Option β}
    (h : Option.Rel R a? b?) :
    Option.Rel R' (a?.map f) (b?.map g) := by
  cases h with
  | none => exact .none
  | some h => exact .some (hfg _ _ h)

theorem isSome_eq_of_rel {α β : Type} {R : α → β → Prop} {a? : Option α} {b? : Option β}
    (h : Option.Rel R a? b?) : a?.isSome = b?.isSome := by
  cases h <;> rfl

namespace Simulation

variable {T U : Type} [GroundLogic T] [GroundLogic U] {m : Formula → Formula}
  {Known : Formula → Prop} (sim : Simulation T U m Known) {x : T} {y : U}

/-! ## Lists of formulas -/

theorem addAll {fs : List Formula} (hfs : ∀ f ∈ fs, Known f) (h : sim.Related x y) :
    sim.Related (GroundLogic.addAll x fs) (GroundLogic.addAll y (fs.map m)) := by
  induction fs generalizing x y with
  | nil => exact h
  | cons f fs ih =>
    obtain ⟨hf, hfs⟩ := List.forall_mem_cons.1 hfs
    exact ih hfs (sim.add hf h)

theorem entailsAll {fs : List Formula} (hfs : ∀ f ∈ fs, Known f) (h : sim.Related x y) :
    (GroundLogic.entailsAll fs x).value.1 = (GroundLogic.entailsAll (fs.map m) y).value.1 ∧
      sim.Related (GroundLogic.entailsAll fs x).value.2
        (GroundLogic.entailsAll (fs.map m) y).value.2 := by
  induction fs generalizing x y with
  | nil => exact ⟨rfl, h⟩
  | cons f fs ih =>
    obtain ⟨hf, hfs⟩ := List.forall_mem_cons.1 hfs
    obtain ⟨hanswer, hrelated⟩ := sim.entails hf h
    rw [List.map_cons, value_entailsAll_cons, value_entailsAll_cons, hanswer]
    split
    · exact ih hfs hrelated
    · exact ⟨rfl, hrelated⟩

theorem accept?_rel {testers : List Formula} (htesters : ∀ f ∈ testers, Known f)
    (h : sim.Related x y) :
    Option.Rel sim.Related (Encoding.accept? testers x) (Encoding.accept? (testers.map m) y) := by
  have hnone : ∀ f ∈ (none : Option Formula), Known f := fun _ hf => nomatch hf
  obtain ⟨hsat, hchecked⟩ := sim.satisfiable hnone h
  obtain ⟨hent, htested⟩ := sim.entailsAll htesters hchecked
  rw [Option.map_none] at hsat hent htested
  rw [Encoding.accept?, Encoding.accept?, hsat, hent]
  split
  · exact .some htested
  · exact .none

/-! ## Rules -/

structure KnownRule (Known : Formula → Prop) (r : Rule) : Prop where
  prerequisite : Known r.prerequisite
  justification : Known r.justification
  consequent : Known r.consequent

def mapRule (m : Formula → Formula) (r : Rule × Nat) : Rule × Nat := (r.1.map m, r.2)

variable {rs : List (Rule × Nat)} (chosen : List Nat)

theorem justified_sublist (rs : List (Rule × Nat)) (x : T) :
    (DefaultTheory.justified rs x).value.Sublist rs := by
  induction rs generalizing x with
  | nil => exact List.Sublist.slnil
  | cons r rs ih =>
    rw [DefaultTheory.value_justified_cons]
    split
    · exact (ih _).cons_cons r
    · exact (ih _).cons r

open DefaultTheory in
theorem value_justified_map (hrs : ∀ r ∈ rs, KnownRule Known r.1) (h : sim.Related x y) :
    (justified (rs.map (mapRule m)) y).value = (justified rs x).value.map (mapRule m) := by
  induction rs generalizing x y with
  | nil => rfl
  | cons r rs ih =>
    obtain ⟨hr, hrs⟩ := List.forall_mem_cons.1 hrs
    have hknown : ∀ f ∈ some r.1.justification, Known f := by
      rintro f ⟨⟩
      exact hr.justification
    obtain ⟨hanswer, hrelated⟩ := sim.satisfiable hknown h
    rw [Option.map_some] at hanswer hrelated
    rw [List.map_cons, value_justified_cons, value_justified_cons, hanswer]
    show (if (GroundLogic.satisfiable (some (m r.1.justification)) y).value.1 then
      mapRule m r :: (justified _ _).value else (justified _ _).value) = _
    rw [apply_ite (List.map (mapRule m)), List.map_cons, ← ih hrs hrelated]
    rfl

/-- Whether two passes applied the same rules, and the same rules wait. -/
structure PassesAgree (p : DefaultTheory.Pass T) (q : DefaultTheory.Pass U) : Prop where
  conclusions : sim.Related p.conclusions q.conclusions
  applied : p.applied = q.applied
  waiting : q.waiting = p.waiting.map (mapRule m)
  known : ∀ r ∈ p.waiting, KnownRule Known r.1

open DefaultTheory in
theorem value_applyRules_rel (hrs : ∀ r ∈ rs, KnownRule Known r.1) (h : sim.Related x y) :
    Option.Rel sim.PassesAgree (applyRules chosen rs x).value
      (applyRules chosen (rs.map (mapRule m)) y).value := by
  induction rs generalizing x y with
  | nil => exact .some ⟨h, rfl, rfl, hrs⟩
  | cons r rs ih =>
    obtain ⟨hr, hrs⟩ := List.forall_mem_cons.1 hrs
    obtain ⟨hanswer, hrelated⟩ := sim.entails hr.prerequisite h
    rw [List.map_cons, value_applyRules_cons, value_applyRules_cons]
    show Option.Rel _ (if _ then _ else _)
      (if (GroundLogic.entails (m r.1.prerequisite) y).value.1 then if r.2 ∈ chosen then _ else _
        else _)
    rw [hanswer]
    split
    · split
      · refine rel_map (fun p q hpq => ?_) (ih hrs (sim.add hr.consequent hrelated))
        exact ⟨hpq.conclusions, congrArg (r.2 :: ·) hpq.applied, hpq.waiting, hpq.known⟩
      · exact .none
    · refine rel_map (fun p q hpq => ?_) (ih hrs hrelated)
      exact ⟨hpq.conclusions, hpq.applied, congrArg (mapRule m r :: ·) hpq.waiting,
        List.forall_mem_cons.2 ⟨hr, hpq.known⟩⟩

open DefaultTheory in
/-- Saturation applies the same rules: each pass leaves the same ones waiting. -/
theorem value_saturate_eq (hrs : ∀ r ∈ rs, KnownRule Known r.1) (h : sim.Related x y) :
    (saturate chosen rs x).value = (saturate chosen (rs.map (mapRule m)) y).value := by
  induction hn : rs.length using Nat.strongRecOn generalizing rs x y with
  | ind n ih =>
    have hpass := sim.value_applyRules_rel chosen hrs h
    rw [saturate, saturate, saturateIn, saturateIn, Logged.value_bind, Logged.value_bind]
    generalize (applyRules chosen rs x).value = p? at hpass
    generalize (applyRules chosen (rs.map (mapRule m)) y).value = q? at hpass
    cases hpass with
    | none => rfl
    | @some p q hpq =>
      have hmore : (q.waiting ≠ [] ∧ q.waiting.length < (rs.map (mapRule m)).length) ↔
          p.waiting ≠ [] ∧ p.waiting.length < rs.length := by
        rw [hpq.waiting, List.length_map, List.length_map, Ne, List.map_eq_nil_iff]
      dsimp only
      by_cases hp : p.waiting ≠ [] ∧ p.waiting.length < rs.length
      · rw [if_pos hp, if_pos (hmore.2 hp), Logged.value_bind, Logged.value_bind, hpq.waiting,
          ih p.waiting.length (hn ▸ hp.2) hpq.known hpq.conclusions rfl, hpq.applied]
      · rw [if_neg hp, if_neg (mt hmore.1 hp), hpq.applied]

/-! ## Theories -/

/-- Whether a default theory is the translation of another one. -/
structure Relates (t : DefaultTheory T) (u : DefaultTheory U) : Prop where
  ground : sim.Related t.ground u.ground
  rules : u.rules = t.rules.map (Rule.map m)
  known : ∀ r ∈ t.rules, KnownRule Known r

variable {t : DefaultTheory T} {u : DefaultTheory U}

theorem Relates.indexed (h : sim.Relates t u) : u.indexed = t.indexed.map (mapRule m) := by
  rw [DefaultTheory.indexed, h.rules, List.zipIdx_map]
  rfl

theorem Relates.consequents (h : sim.Relates t u) (chosen : List Nat) :
    u.consequents chosen = (t.consequents chosen).map m := by
  rw [DefaultTheory.consequents, DefaultTheory.consequents, List.map_filterMap, h.rules]
  refine congrArg (List.filterMap · chosen) (funext fun i => ?_)
  rw [List.getElem?_map, Option.map_map, Option.map_map]
  rfl

theorem Relates.extensionBy (h : sim.Relates t u) (chosen : List Nat) :
    sim.Related (t.extensionBy chosen) (u.extensionBy chosen) := by
  rw [DefaultTheory.extensionBy, DefaultTheory.extensionBy, h.consequents]
  refine sim.addAll ?_ h.ground
  intro f hf
  obtain ⟨i, -, r, hr, rfl⟩ := DefaultTheory.mem_consequents.1 hf
  exact (h.known r (List.mem_of_getElem? hr)).consequent

/-- **The same rules generate extensions of related theories.** -/
theorem Relates.value_generates_eq (h : sim.Relates t u) (chosen : List Nat) :
    (t.generates chosen).value = (u.generates chosen).value := by
  have hindexed : ∀ r ∈ t.indexed, KnownRule Known r.1 := fun r hr =>
    h.known r.1 (List.fst_mem_of_mem_zipIdx hr)
  have hjustified := sim.value_justified_map hindexed (h.extensionBy sim chosen)
  have hknown : ∀ r ∈ (DefaultTheory.justified t.indexed (t.extensionBy chosen)).value,
      KnownRule Known r.1 := fun r hr =>
    hindexed r ((justified_sublist t.indexed (t.extensionBy chosen)).subset hr)
  have hindices : ∀ rs : List (Rule × Nat), (rs.map (mapRule m)).map Prod.snd = rs.map Prod.snd :=
    fun rs => List.map_map
  rw [DefaultTheory.value_generates, DefaultTheory.value_generates, h.indexed, hjustified]
  dsimp only
  rw [hindices, sim.value_saturate_eq chosen hknown h.ground]

end Simulation

end DefaultLogic
