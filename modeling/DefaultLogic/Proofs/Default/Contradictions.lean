import DefaultLogic.Proofs.Default.Agreement

/-!
# Contradictions in extensions

The test of an inconsistent atom says that it is both true and false if it is either.  An extension
that passes it may thus leave open whether the atom is neither, and says that it is both only as far
as it says that it is either.  It does so if raising the atom to true keeps the formulas of the
extension true, as that would tell the atom from its negation.

* `entails_contradiction_iff_of_tester`: **what passes the test says that the atom is both exactly
  if it says that it is either.**
* `Formula.RisesWith.eval_push`: a normal form stays true when an atom is raised that occurs neither
  in an equivalence nor on the left of an internal implication.
* `entails_contradiction_of_rises`: so formulas that pass the test say that it is both.
* `Theory.entails_contradiction_of_visits`: **this decides which extensions of a search say that
  their inconsistent atoms are both true and false.**
-/

namespace DefaultLogic

open DefaultLogic.Sat

def contradiction (name : String) : Formula := .and [.atom name, .not (.atom name)]

def alternative (name : String) : Formula := .or [.atom name, .not (.atom name)]

variable {s : NegationStyle} {a : String} {v : Valuation} {gs : List Formula}

/-! ## Both or either -/

theorem Formula.eval_push_implication (l r : Formula) :
    ((Formula.implication l r).push s true).eval v =
      (!(l.push s true).eval v || (r.push s true).eval v) := by
  rw [Formula.push, if_neg (by decide)]
  split
  · rfl
  · rw [Formula.eval_junction]
    show (_ || (_ || false)) = _
    rw [Bool.or_false]
    rfl

section

variable (ha : s.renames a = true)

include ha

theorem eval_push_contradiction :
    ((contradiction a).push s true).eval v = (v a && v (negatedName a)) := by
  have hnormalForm : (contradiction a).push s true =
      .and [.atom a, s.literal a false] := rfl
  rw [hnormalForm, NegationStyle.literal, if_neg Bool.false_ne_true, if_pos ha,
    Formula.eval_junction]
  show (v a && (v (negatedName a) && true)) = _
  rw [Bool.and_true]

theorem eval_push_alternative :
    ((alternative a).push s true).eval v = (v a || v (negatedName a)) := by
  have hnormalForm : (alternative a).push s true =
      .or [.atom a, s.literal a false] := rfl
  rw [hnormalForm, NegationStyle.literal, if_neg Bool.false_ne_true, if_pos ha,
    Formula.eval_junction]
  show (v a || (v (negatedName a) || false)) = _
  rw [Bool.or_false]

/-- The test of an inconsistent atom says that it is as true as its negation. -/
theorem eval_push_inconsistencyTester :
    ((inconsistencyTester a).push s true).eval v = (v a == v (negatedName a)) := by
  have htester : inconsistencyTester a = .implication (alternative a) (contradiction a) := rfl
  rw [htester, Formula.eval_push_implication, eval_push_alternative ha, eval_push_contradiction ha]
  cases v a <;> cases v (negatedName a) <;> rfl

section

variable (htest : Entails gs ((inconsistencyTester a).push s true))

include htest

theorem eq_negation_of_tester (hv : Satisfies v gs) : v a = v (negatedName a) := by
  have htrue := htest v hv
  rwa [eval_push_inconsistencyTester ha, beq_iff_eq] at htrue

/-- **What passes the test says that the atom is both exactly if it says that it is either.** -/
theorem entails_contradiction_iff_of_tester :
    Entails gs ((contradiction a).push s true) ↔ Entails gs ((alternative a).push s true) := by
  refine forall₂_congr fun v hv => ?_
  rw [eval_push_contradiction ha, eval_push_alternative ha, eq_negation_of_tester ha htest hv,
    Bool.and_self, Bool.or_self]

/-- **If formulas stay true when the atom is raised, they say that it is both.**  Otherwise it could
be neither, and would differ from its negation once it is raised. -/
theorem entails_contradiction_of_rises (hplain : IsPlain a)
    (hrises : ∀ v, Satisfies v gs → Satisfies (Function.update v a true) gs) :
    Entails gs ((contradiction a).push s true) := by
  intro v hv
  have hraised := eq_negation_of_tester ha htest (hrises v hv)
  rw [Function.update_self, Function.update_of_ne (hplain a).symm] at hraised
  rw [eval_push_contradiction ha, eq_negation_of_tester ha htest hv, ← hraised]
  rfl

end

end

/-! ## Raised atoms -/

theorem Junction.eval_mono {bs cs : List Bool}
    (h : List.Forall₂ (fun b c => b = true → c = true) bs cs) (j : Junction)
    (hbs : j.eval bs = true) : j.eval cs = true := by
  induction h with
  | nil => exact hbs
  | cons hbc _ ih =>
    cases j with
    | and =>
      obtain ⟨hb, hrest⟩ := Bool.and_eq_true_iff.1 hbs
      exact Bool.and_eq_true_iff.2 ⟨hbc hb, ih hrest⟩
    | or => exact Bool.or_eq_true_iff.2 ((Bool.or_eq_true_iff.1 hbs).imp hbc ih)

namespace Formula

/-- Whether an atom occurs neither in an equivalence nor on the left of an internal implication. -/
inductive RisesWith (a : String) : Formula → Prop
  | atom (name : String) : RisesWith a (.atom name)
  | not {f : Formula} : RisesWith a f → RisesWith a (.not f)
  | junction (j : Junction) {fs : List Formula} :
    (∀ f ∈ fs, RisesWith a f) → RisesWith a (.junction j fs)
  | material {l r : Formula} : RisesWith a l → RisesWith a r → RisesWith a (.imply l r)
  | internal {l r : Formula} :
    a ∉ l.occurrences → RisesWith a r → RisesWith a (.implication l r)
  | equivalence {l r : Formula} :
    a ∉ l.occurrences → a ∉ r.occurrences → RisesWith a (.equiv l r)

variable {f : Formula}

theorem eval_push_update (hplain : ∀ b ∈ f.occurrences, a ≠ negatedName b)
    (hf : a ∉ f.occurrences) (positive : Bool) :
    (f.push s positive).eval (Function.update v a true) = (f.push s positive).eval v := by
  refine eval_push_of_agree s (fun b hb => ?_) (fun b hb => ?_) positive
  · exact Function.update_of_ne (fun h : b = a => hf (h ▸ hb)) true v
  · exact Function.update_of_ne (hplain b hb).symm true v

/-- **A normal form stays true when an atom is raised** whose negation is an atom of its own, and
which occurs neither in an equivalence nor on the left of an internal implication. -/
theorem RisesWith.eval_push (h : f.RisesWith a) (hplain : IsPlain a) (ha : s.renames a = true)
    {positive : Bool} (hv : (f.push s positive).eval v = true) :
    (f.push s positive).eval (Function.update v a true) = true := by
  induction h generalizing positive with
  | atom name =>
    by_cases hname : name = a
    · subst hname
      cases positive with
      | true => exact Function.update_self name true v
      | false =>
        rw [push, NegationStyle.literal, if_neg Bool.false_ne_true, if_pos ha, eval] at hv ⊢
        rwa [Function.update_of_ne (hplain name).symm]
    · have hother : a ∉ (Formula.atom name).occurrences :=
        fun hmem => hname (List.mem_singleton.1 hmem).symm
      rwa [eval_push_update (fun b _ => hplain b) hother]
  | not _ ih => exact ih hv
  | @junction j fs _ ih =>
    rw [push_junction, eval_junction, List.map_map] at hv ⊢
    refine Junction.eval_mono ?_ _ hv
    rw [List.forall₂_map_left_iff, List.forall₂_map_right_iff, List.forall₂_same]
    exact fun f hf => ih f hf
  | material _ _ ihl ihr =>
    rw [push, eval_junction] at hv ⊢
    exact Junction.eval_mono (.cons ihl (.cons ihr .nil)) _ hv
  | @internal l r hl _ ihr =>
    have hleft := eval_push_update (s := s) (v := v) (fun b _ => hplain b) hl
    cases positive with
    | true =>
      rw [eval_push_implication] at hv ⊢
      rw [hleft]
      exact Bool.or_eq_true_iff.2 ((Bool.or_eq_true_iff.1 hv).imp_right ihr)
    | false =>
      rw [push, if_pos Bool.not_false, eval_junction] at hv ⊢
      exact Junction.eval_mono (.cons (fun h => (hleft true).trans h) (.cons ihr .nil)) _ hv
  | @equivalence l r hl hr =>
    have hleft := eval_push_update (s := s) (v := v) (fun b _ => hplain b) hl
    have hright := eval_push_update (s := s) (v := v) (fun b _ => hplain b) hr
    rw [push, eval, hleft, hright]
    rwa [push, eval] at hv

end Formula

namespace Theory

variable {solver : Solver} {t : Theory} {S : List String} {chosen : List Nat}

/-! ## Visited extensions -/

theorem satisfies_map_push_update (hplain : IsPlain a) (ha : s.renames a = true)
    {fs : List Formula} (hfs : ∀ f ∈ fs, f.RisesWith a)
    (hv : Satisfies v (fs.map (Formula.push s true))) :
    Satisfies (Function.update v a true) (fs.map (Formula.push s true)) := by
  rw [satisfies_map] at hv ⊢
  exact fun f hf => (hfs f hf).eval_push hplain ha (hv f hf)

theorem satisfies_classicalAssertions_update (hplain : IsPlain a) (ha : a ∈ S)
    {known : List String} (hv : Satisfies v (classicalAssertions known S)) :
    Satisfies (Function.update v a true) (classicalAssertions known S) := by
  rw [satisfies_classicalAssertions] at hv ⊢
  intro b hb hmem
  have hother : b ≠ a := fun h => hmem (h ▸ ha)
  rw [Function.update_of_ne hother, Function.update_of_ne (hplain b).symm]
  exact hv b hb hmem

section

variable (hs : solver.Decides) (ha : a ∈ S)

include hs ha

theorem entails_contradiction_native {x : ParaconsistentTheory solver}
    (hx : (Encoding.native solver).Visits t.atoms (nativeTheory solver t) S chosen x) :
    ((GroundLogic.entails (contradiction a) x).value.1 = true ↔
        (GroundLogic.entails (alternative a) x).value.1 = true) ∧
      (IsPlain a → (∀ f ∈ t.facts ++ t.consequents chosen, f.RisesWith a) →
        (GroundLogic.entails (contradiction a) x).value.1 = true) := by
  have hrenames : (NegationStyle.paraconsistent S).renames a = true :=
    NegationStyle.renames_paraconsistent.2 ha
  obtain ⟨hreads, -, htests⟩ := reads_of_visits_native hs hx
  rw [Reading.entails_iff _ _ hreads, Reading.entails_iff _ _ hreads]
  refine ⟨entails_contradiction_iff_of_tester hrenames (htests a ha), fun hplain hrises => ?_⟩
  refine entails_contradiction_of_rises hrenames (htests a ha) hplain fun v hv => ?_
  exact satisfies_map_push_update hplain hrenames hrises hv

theorem entails_contradiction_renamed {y : ClassicalTheory solver}
    (hy : (Encoding.renamed solver).Visits t.atoms (renamedTheory solver t []) S chosen y) :
    ((GroundLogic.entails (contradiction a).fullPnnf y).value.1 = true ↔
        (GroundLogic.entails (alternative a).fullPnnf y).value.1 = true) ∧
      (IsPlain a → (∀ f ∈ t.facts ++ t.consequents chosen, f.RisesWith a) →
        (GroundLogic.entails (contradiction a).fullPnnf y).value.1 = true) := by
  have hrenames : NegationStyle.full.renames a = true := rfl
  obtain ⟨hreads, -, htests⟩ := reads_of_visits_renamed hs hy
  rw [Reading.entails_iff _ _ hreads, Reading.entails_iff _ _ hreads, List.map_id]
  refine ⟨entails_contradiction_iff_of_tester hrenames (htests a ha), fun hplain hrises => ?_⟩
  obtain ⟨hfacts, hconsequents⟩ := List.forall_mem_append.1 hrises
  refine entails_contradiction_of_rises hrenames (htests a ha) hplain fun v hv => ?_
  rw [satisfies_append, satisfies_append] at hv ⊢
  obtain ⟨⟨hvfacts, hvassertions⟩, hvconsequents⟩ := hv
  exact ⟨⟨satisfies_map_push_update hplain hrenames hfacts hvfacts,
    satisfies_classicalAssertions_update hplain ha hvassertions⟩,
    satisfies_map_push_update hplain hrenames hconsequents hvconsequents⟩

end

/-- **A visited extension says that an inconsistent atom is both true and false exactly if it says
that it is either**, under either encoding.  It does so if the atom occurs neither in an equivalence
nor on the left of an internal implication, in the facts and in the conclusions of the rules that
generate the extension. -/
theorem entails_contradiction_of_visits (hs : solver.Decides) (ss : List Statement)
    (hplain : ∀ s ∈ ss, ∀ a ∈ s.occurrences, IsPlain a) :
    let t := Theory.ofStatements ss
    ∀ S ⊆ t.atoms, ∀ a ∈ S, ∀ chosen,
      (∀ x, (Encoding.native solver).Visits t.atoms
          ((Encoding.native solver).encode t.rules t.facts) S chosen x →
        let Entails f := (GroundLogic.entails f x).value.1 = true
        (Entails (contradiction a) ↔ Entails (alternative a)) ∧
          ((∀ f ∈ t.facts ++ t.consequents chosen, f.RisesWith a) → Entails (contradiction a))) ∧
      ∀ y, (Encoding.renamed solver).Visits t.atoms
          ((Encoding.renamed solver).encode t.rules t.facts) S chosen y →
        let Entails f := (GroundLogic.entails (Formula.fullPnnf f) y).value.1 = true
        (Entails (contradiction a) ↔ Entails (alternative a)) ∧
          ((∀ f ∈ t.facts ++ t.consequents chosen, f.RisesWith a) →
            Entails (contradiction a)) := by
  intro t S hS a ha chosen
  have hatom : IsPlain a := forall_mem_atoms_ofStatements hplain a (hS ha)
  constructor
  · intro x hx
    obtain ⟨hiff, hrises⟩ := entails_contradiction_native hs ha hx
    exact ⟨hiff, hrises hatom⟩
  · intro y hy
    obtain ⟨hiff, hrises⟩ := entails_contradiction_renamed hs ha hy
    exact ⟨hiff, hrises hatom⟩

/-- Facts that contradict each other say so, together with a rule that is applied. -/
theorem entails_contradiction_of_visits_facts :
    let ss : List Statement := [.formula (.atom "a"), .formula (.not (.atom "a")),
      .rule ⟨.atom "a", .atom "b", .imply (.atom "a") (.atom "b")⟩]
    let t := Theory.ofStatements ss
    solve.Decides ∧ (∀ s ∈ ss, ∀ a ∈ s.occurrences, IsPlain a) ∧
      (∃ x, (Encoding.native solve).Visits t.atoms
          ((Encoding.native solve).encode t.rules t.facts) ["a"] [0] x ∧
        (GroundLogic.entails (contradiction "a") x).value.1 = true) ∧
      ∃ y, (Encoding.renamed solve).Visits t.atoms
          ((Encoding.renamed solve).encode t.rules t.facts) ["a"] [0] y ∧
        (GroundLogic.entails (contradiction "a").fullPnnf y).value.1 = true := by
  intro ss t
  have hplain : ∀ s ∈ ss, ∀ a ∈ s.occurrences, IsPlain a := by
    decide
  have hrises : ∀ f ∈ t.facts ++ t.consequents [0], f.RisesWith "a" :=
    List.forall_mem_cons.2 ⟨.atom _, List.forall_mem_cons.2 ⟨.not (.atom _),
      List.forall_mem_singleton.2 (.material (.atom _) (.atom _))⟩⟩
  obtain ⟨hnative, hrenamed⟩ := entails_contradiction_of_visits solve_decides ss hplain
    ["a"] (by decide) "a" (by decide) [0]
  refine ⟨solve_decides, hplain, ?_, ?_⟩
  · obtain ⟨x, hx⟩ : ∃ x, (Encoding.native solve).Visits t.atoms
        ((Encoding.native solve).encode t.rules t.facts) ["a"] [0] x := by
      refine Encoding.exists_visits_iff.2 ⟨by decide, ?_, ?_⟩ <;> cbv
    exact ⟨x, hx, (hnative x hx).2 hrises⟩
  · obtain ⟨y, hy⟩ : ∃ y, (Encoding.renamed solve).Visits t.atoms
        ((Encoding.renamed solve).encode t.rules t.facts) ["a"] [0] y := by
      refine Encoding.exists_visits_iff.2 ⟨by decide, ?_, ?_⟩ <;> cbv
    exact ⟨y, hy, (hrenamed y hy).2 hrises⟩

/-- Of an atom that is as true as its negation nothing says that it is either: the search accepts
the fact for this atom, and the extension does not say that it is both. -/
theorem visits_not_contradiction :
    let t := Theory.ofStatements [.formula (.equiv (.atom "a") (.not (.atom "a")))]
    (t.searchReport (.native solve) Visitor.collect []).value.1.minimal = [["a"]] ∧
      (∃ x, (Encoding.native solve).Visits t.atoms
          ((Encoding.native solve).encode t.rules t.facts) ["a"] [] x ∧
        (GroundLogic.entails (contradiction "a") x).value.1 = false) ∧
      (t.searchReport (.renamed solve) Visitor.collect []).value.1.minimal = [["a"]] ∧
      ∃ y, (Encoding.renamed solve).Visits t.atoms
          ((Encoding.renamed solve).encode t.rules t.facts) ["a"] [] y ∧
        (GroundLogic.entails (contradiction "a").fullPnnf y).value.1 = false := by
  intro t
  let native := (Encoding.native solve).restricted t.atoms (nativeTheory solve t) ["a"]
  let renamed := (Encoding.renamed solve).restricted t.atoms (renamedTheory solve t []) ["a"]
  have hnative : (Encoding.accept? ((Encoding.native solve).testers ["a"])
      (native.extensionBy [])).map
        (fun x => (GroundLogic.entails (contradiction "a") x).value.1) = some false := by
    cbv
  have hrenamed : (Encoding.accept? ((Encoding.renamed solve).testers ["a"])
      (renamed.extensionBy [])).map
        (fun y => (GroundLogic.entails (contradiction "a").fullPnnf y).value.1) = some false := by
    cbv
  obtain ⟨x, hx, hxfalse⟩ := Option.map_eq_some_iff.1 hnative
  obtain ⟨y, hy, hyfalse⟩ := Option.map_eq_some_iff.1 hrenamed
  refine ⟨?_, ⟨x, ⟨List.nil_sublist _, ?_, hx⟩, hxfalse⟩, ?_, y, ⟨List.nil_sublist _, ?_, hy⟩,
    hyfalse⟩ <;> cbv

end Theory

end DefaultLogic
