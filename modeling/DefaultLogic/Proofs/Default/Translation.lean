import DefaultLogic.Proofs.Default.Lockstep
import DefaultLogic.Proofs.Default.Sharing
import Mathlib.Data.List.Induction

/-!
# Default logic over normal forms

A paraconsistent theory asks the classical theory of its normal forms, and default reasoning asks
nothing else of a ground theory.  So a default theory over it has the extensions of the default
theory whose facts and rules are the normal forms, whichever solver both ask, also one that gives
up.  That its copies share what is compiled, and outgrow it, makes no difference.

* `Simulation.Relates.isTranslation`: default theories over ground theories that answer alike have
  the same extensions.
* `translation`: a paraconsistent theory and the classical theory of its normal forms answer alike.
* `Edit.keeps_theory`: a default theory keeps what it was told.
* `Edit.Keeps.isTranslation`: so it has the extensions of the normal forms of this.
* `Edit.mirrors_sharedTheory`: in a memory it does what it does without sharing.
* `Edit.theory_isTranslation`: **a default theory that was told rules, facts and inconsistent atoms
  in any order, with questions in between, has the extensions of the normal forms.**
-/

namespace DefaultLogic

open DefaultLogic.Sat

/-! ## Translations of default theories -/

/-- Whether a default theory has the extensions of another one, by the same rules and in the same
order, when formulas are translated. -/
structure DefaultTheory.IsTranslation {T U : Type} [GroundLogic T] [GroundLogic U]
    (m : Formula → Formula) (t : DefaultTheory T) (u : DefaultTheory U) : Prop where
  generates : ∀ chosen, (u.generates chosen).value = (t.generates chosen).value
  /-- Both show their visitors the extensions by the same lists of rules. -/
  visited :
    (∀ {σ : Type} (visit : Visitor T σ) (s : σ), (t.search visit s).value =
      (Subsets.visitList (fun chosen => visit (t.extensionBy chosen)) t.generators s).value) ∧
    ∀ {σ : Type} (visit : Visitor U σ) (s : σ), (u.search visit s).value =
      (Subsets.visitList (fun chosen => visit (u.extensionBy chosen)) t.generators s).value
  formulas : ∀ chosen, GroundLogic.formulas (u.extensionBy chosen) =
    (GroundLogic.formulas (t.extensionBy chosen)).map m
  entails : ∀ mode f, (u.search (Visitor.entailment (m f) mode) (Visitor.initial mode)).value =
    (t.search (Visitor.entailment f mode) (Visitor.initial mode)).value

theorem Simulation.Relates.isTranslation {T U : Type} [GroundLogic T] [GroundLogic U]
    {m : Formula → Formula} {sim : Simulation T U m fun _ => True} {t : DefaultTheory T}
    {u : DefaultTheory U} (h : sim.Relates t u)
    (hformulas : ∀ x y, sim.Related x y →
      GroundLogic.formulas y = (GroundLogic.formulas x).map m) :
    t.IsTranslation m u where
  generates chosen := (h.value_generates_eq sim chosen).symm
  visited := by
    refine ⟨t.value_search, fun visit s => ?_⟩
    rw [u.value_search, h.generators_eq]
  formulas chosen := hformulas _ _ (h.extensionBy sim chosen)
  entails mode f := by
    refine (h.search_agrees sim ?_ rfl).eq.symm
    rintro chosen - b _ rfl
    exact Visitor.entailment_agrees (sim.entails trivial (h.extensionBy sim chosen)).1 mode b

/-! ## Normal forms -/

/-- A paraconsistent theory and the classical theory of its normal forms answer alike. -/
def translation (solver : Solver) (inconsistent : List String) :
    Simulation (ParaconsistentTheory solver) (ClassicalTheory solver) (Formula.pnnf inconsistent)
      fun _ => True where
  Related x y := x.IsFresh ∧ x.inconsistent = sortedNames inconsistent ∧ y = x.classical
  add {x _ f} _ h := by
    obtain ⟨-, hnames, rfl⟩ := h
    refine ⟨ParaconsistentTheory.isFresh_of_none rfl, hnames, ?_⟩
    show x.classical.add (f.pnnf inconsistent) =
      .ofFormulas ((x.formulas ++ [f]).map (·.pnnf x.inconsistent))
    rw [List.map_append, List.map_singleton, ClassicalTheory.ofFormulas_concat, hnames,
      pnnf_sortedNames, ParaconsistentTheory.classical, hnames, pnnf_sortedNames]
  satisfiable {x _ f?} _ h := by
    obtain ⟨hfresh, hnames, rfl⟩ := h
    have hx : (GroundLogic.satisfiable f? x).value = _ :=
      ParaconsistentTheory.value_satisfiable hfresh f?
    have hy : (GroundLogic.satisfiable (f?.map (Formula.pnnf inconsistent)) x.classical).value.2 =
        x.classical := ClassicalTheory.after_eq x.isCompiled_classical.isExact _
    rw [hx, hy, hnames, pnnf_sortedNames]
    exact ⟨rfl, x.isFresh_compiled, hnames, rfl⟩
  entails {x _ f} _ h := by
    obtain ⟨hfresh, hnames, rfl⟩ := h
    have hx : (GroundLogic.entails f x).value = _ := ParaconsistentTheory.value_entails hfresh f
    have hy : (GroundLogic.entails (f.pnnf inconsistent) x.classical).value.2 = x.classical :=
      ClassicalTheory.after_eq x.isCompiled_classical.isExact (some _)
    rw [hx, hy, hnames, pnnf_sortedNames]
    exact ⟨rfl, x.isFresh_compiled, hnames, rfl⟩

/-! ## Edits -/

/-- What is done to a default theory over a paraconsistent one: it is told something, or it or its
ground theory is asked a question. -/
inductive Edit where
  | addRule (r : Rule)
  | addFact (f : Formula)
  | setInconsistent (names : List String)
  | satisfiable (f? : Option Formula)
  | entails (f : Formula)
  | compile
  | generates (chosen : List Nat)
  | search (f : Formula) (mode : Mode)

namespace Edit

variable {solver : Solver}

def apply (t : DefaultTheory (ParaconsistentTheory solver)) :
    Edit → Logged (DefaultTheory (ParaconsistentTheory solver))
  | .addRule r => pure (t.addRule r)
  | .addFact f => pure (t.addFact f)
  | .setInconsistent names => pure { t with ground := t.ground.setInconsistent names }
  | .satisfiable f? => do
    let (_, ground) ← t.ground.satisfiable f?
    pure { t with ground := ground }
  | .entails f => do
    let (_, ground) ← t.ground.entails f
    pure { t with ground := ground }
  | .compile => do
    let (_, ground) ← t.ground.compile
    pure { t with ground := ground }
  | .generates chosen => do
    let _ ← t.generates chosen
    pure t
  | .search f mode => do
    let _ ← t.search (Visitor.entailment f mode) (Visitor.initial mode)
    pure t

/-- Applies an edit in a memory. -/
def applyShared (t : SharedDefaultTheory) : Edit → InMemory solver SharedDefaultTheory
  | .addRule r => pure (t.addRule r)
  | .addFact f => do
    let ground ← .add t.ground f
    pure { t with ground := ground }
  | .setInconsistent names => do
    let ground ← .setInconsistent names t.ground
    pure { t with ground := ground }
  | .satisfiable f? => do
    let (_, ground) ← .satisfiable f? t.ground
    pure { t with ground := ground }
  | .entails f => do
    let (_, ground) ← .entails f t.ground
    pure { t with ground := ground }
  | .compile => do
    let (_, ground) ← .compiledTheory t.ground
    pure { t with ground := ground }
  | .generates chosen => do
    let _ ← t.generatesIn (InMemory solver) chosen
    pure t
  | .search f mode => do
    let _ ← t.searchIn (InMemory solver) (Visitor.entailmentIn (InMemory solver) f mode)
      (Visitor.initial mode)
    pure t

/-! ## The record -/

def rule? : Edit → Option Rule
  | .addRule r => some r
  | _ => none

def fact? : Edit → Option Formula
  | .addFact f => some f
  | _ => none

def inconsistent? : Edit → Option (List String)
  | .setInconsistent names => some names
  | _ => none

/-- The inconsistent atoms as they were declared last; none if they never were. -/
def inconsistent (edits : List Edit) : List String :=
  (edits.filterMap inconsistent?).getLastD []

def theory (solver : Solver) (edits : List Edit) :
    Logged (DefaultTheory (ParaconsistentTheory solver)) := edits.foldlM apply ⟨[], {}⟩

def sharedTheory (edits : List Edit) : InMemory solver SharedDefaultTheory := do
  let t ← SharedDefaultTheory.create
  edits.foldlM applyShared t

/-- The default theory of the normal forms of the rules and facts that were told. -/
def normalForms (solver : Solver) (edits : List Edit) : DefaultTheory (ClassicalTheory solver) :=
  let m := Formula.pnnf (inconsistent edits)
  ⟨(edits.filterMap rule?).map (Rule.map m),
    GroundLogic.addAll {} ((edits.filterMap fact?).map m)⟩

/-- What a default theory keeps of the edits. -/
structure Keeps (t : DefaultTheory (ParaconsistentTheory solver)) (edits : List Edit) : Prop where
  rules : t.rules = edits.filterMap rule?
  facts : t.facts = edits.filterMap fact?
  inconsistent : t.ground.inconsistent = sortedNames (inconsistent edits)
  isFresh : t.ground.IsFresh

theorem filterMap_concat {α : Type} (told? : Edit → Option α) (edits : List Edit) (e : Edit) :
    (edits ++ [e]).filterMap told? = edits.filterMap told? ++ (told? e).toList := by
  rw [List.filterMap_append]
  cases h : told? e <;> simp [h]

theorem Keeps.concat {t t' : DefaultTheory (ParaconsistentTheory solver)} {edits : List Edit}
    (h : Keeps t edits) {e : Edit} (hrules : t'.rules = t.rules ++ e.rule?.toList)
    (hfacts : t'.facts = t.facts ++ e.fact?.toList)
    (hnames : t'.ground.inconsistent =
      (e.inconsistent?.map sortedNames).getD t.ground.inconsistent)
    (hfresh : t'.ground.IsFresh) : Keeps t' (edits ++ [e]) where
  rules := by rw [filterMap_concat, ← h.rules, hrules]
  facts := by rw [filterMap_concat, ← h.facts, hfacts]
  inconsistent := by
    rw [hnames, h.inconsistent, Edit.inconsistent, Edit.inconsistent, filterMap_concat]
    cases e.inconsistent? with
    | none => rw [Option.toList_none, List.append_nil]; rfl
    | some names => rw [Option.toList_some, List.getLastD_concat]; rfl
  isFresh := hfresh

/-- **One edit does to the default theory what it does to the record.** -/
theorem Keeps.apply {t : DefaultTheory (ParaconsistentTheory solver)} {edits : List Edit}
    (h : Keeps t edits) (e : Edit) : Keeps (Edit.apply t e).value (edits ++ [e]) := by
  have hrules : t.rules = t.rules ++ [] := (List.append_nil _).symm
  have hfacts : t.facts = t.facts ++ [] := (List.append_nil _).symm
  have hcompiled : t.ground.compiled.IsFresh := t.ground.isFresh_compiled
  cases e with
  | addRule r => exact h.concat rfl hfacts rfl h.isFresh
  | addFact f => exact h.concat hrules rfl rfl (ParaconsistentTheory.isFresh_of_none rfl)
  | setInconsistent names =>
    have hsame : (t.ground.setInconsistent names).formulas = t.facts :=
      ParaconsistentTheory.formulas_setInconsistent names
    exact h.concat hrules (hsame.trans hfacts)
      (ParaconsistentTheory.inconsistent_setInconsistent names)
      (ParaconsistentTheory.isFresh_setInconsistent h.isFresh names)
  | satisfiable f? =>
    rw [Edit.apply, Logged.value_bind, ParaconsistentTheory.value_satisfiable h.isFresh]
    exact h.concat hrules hfacts rfl hcompiled
  | entails f =>
    rw [Edit.apply, Logged.value_bind, ParaconsistentTheory.value_entails h.isFresh]
    exact h.concat hrules hfacts rfl hcompiled
  | compile =>
    rw [Edit.apply, Logged.value_bind, ParaconsistentTheory.value_compile h.isFresh]
    exact h.concat hrules hfacts rfl hcompiled
  | generates chosen => exact h.concat hrules hfacts rfl h.isFresh
  | search f mode => exact h.concat hrules hfacts rfl h.isFresh

theorem keeps_theory (edits : List Edit) : Keeps (theory solver edits).value edits := by
  induction edits using List.reverseRecOn with
  | nil => exact ⟨rfl, rfl, sortedNames_nil.symm, ParaconsistentTheory.isFresh_of_none rfl⟩
  | append_singleton edits e ih =>
    rw [theory, List.foldlM_append]
    exact ih.apply e

/-- **A default theory that follows the record has the extensions of the normal forms.** -/
theorem Keeps.isTranslation {t : DefaultTheory (ParaconsistentTheory solver)} {edits : List Edit}
    (h : Keeps t edits) :
    t.IsTranslation (Formula.pnnf (Edit.inconsistent edits)) (normalForms solver edits) := by
  have hground : (normalForms solver edits).ground = t.ground.classical := by
    show ClassicalTheory.ofFormulas ((edits.filterMap fact?).map _) = .ofFormulas _
    rw [← h.facts, h.inconsistent, pnnf_sortedNames]
    rfl
  have hrelates : (translation solver (Edit.inconsistent edits)).Relates t
      (normalForms solver edits) :=
    { ground := ⟨h.isFresh, h.inconsistent, hground⟩
      rules := congrArg _ h.rules.symm
      known := fun _ _ => ⟨trivial, trivial, trivial⟩ }
  refine hrelates.isTranslation fun x y hxy => ?_
  obtain ⟨-, hxnames, rfl⟩ := hxy
  refine (ClassicalTheory.formulas_ofFormulas _).trans ?_
  rw [hxnames, pnnf_sortedNames]
  rfl

/-! ## Memories -/

open InMemory

section

variable {m : Memory solver} {t : SharedDefaultTheory}
  {u : DefaultTheory (ParaconsistentTheory solver)}

theorem mirrors_apply (hm : m.IsSound) (h : t.IsSeenAs m u) (e : Edit) :
    Mirrors m (applyShared t e) (apply u e) SharedDefaultTheory.IsSeenAs := by
  have ⟨hrules, hground⟩ := h
  cases e with
  | addRule r => exact mirrors_pure hm ⟨congrArg (· ++ [r]) hrules, hground⟩
  | addFact f =>
    exact (mirrors_add hm hground f).start fun _ _ h hm _ => mirrors_pure hm ⟨hrules, h⟩
  | setInconsistent names =>
    exact (mirrors_setInconsistent hm hground names).start fun _ _ h hm _ =>
      mirrors_pure hm ⟨hrules, h⟩
  | satisfiable f? =>
    exact (mirrors_satisfiable hm hground f?).map fun _ _ _ h => ⟨hrules, h.theory⟩
  | entails f => exact (mirrors_entails hm hground f).map fun _ _ _ h => ⟨hrules, h.theory⟩
  | compile => exact (mirrors_compiledTheory hm hground).map fun _ _ _ h => ⟨hrules, h⟩
  | generates chosen =>
    exact (h.mirrors_generates hm chosen).bind fun _ _ _ _ hm hkeeps =>
      mirrors_pure hm (h.of_extends hkeeps)
  | search f mode =>
    exact (h.mirrors_search hm (SharedVisitor.mirrors_entailment f mode) _).bind
      fun _ _ _ _ hm hkeeps => mirrors_pure hm (h.of_extends hkeeps)

theorem mirrors_foldlM (hm : m.IsSound) (h : t.IsSeenAs m u) (edits : List Edit) :
    Mirrors m (edits.foldlM applyShared t) (edits.foldlM apply u) SharedDefaultTheory.IsSeenAs := by
  induction edits generalizing t u m with
  | nil => exact mirrors_pure hm h
  | cons e edits ih =>
    rw [List.foldlM_cons, List.foldlM_cons]
    exact (mirrors_apply hm h e).bind fun _ _ _ h hm _ => ih hm h

/-- **Edits in a memory do what they do without sharing**, and so does all that is asked after
them. -/
theorem mirrors_sharedTheory (hm : m.IsSound) (edits : List Edit) :
    Mirrors m (sharedTheory edits) (theory solver edits) SharedDefaultTheory.ActsAs := by
  have hseen : Mirrors m (sharedTheory edits) (theory solver edits) SharedDefaultTheory.IsSeenAs :=
    (SharedDefaultTheory.mirrors_create hm).start fun _ _ h hm _ => mirrors_foldlM hm h edits
  exact hseen.imp fun _ _ _ h => h.actsAs

end

/-- **A default theory that was told rules, facts and inconsistent atoms in any order, with
questions in between, has the extensions of the normal forms** of its rules and facts under the
inconsistent atoms that were declared last, whatever the solver answers: the same rules generate
them, every search visits them in the same order, and every question that is answered about the
normal forms gets the same answer.  If its ground theory shares what is compiled, with the copies
that are made of it and with other theories, it acts as if it did not. -/
theorem theory_isTranslation (solver : Solver) (edits : List Edit) :
    let t := (theory solver edits).value
    t.rules = edits.filterMap rule? ∧ t.facts = edits.filterMap fact? ∧
      t.IsTranslation (Formula.pnnf (inconsistent edits)) (normalForms solver edits) ∧
      ∀ m : Memory solver, m.IsSound →
        Mirrors m (sharedTheory edits) (theory solver edits) SharedDefaultTheory.ActsAs := by
  intro t
  have hkeeps : Keeps t edits := keeps_theory edits
  exact ⟨hkeeps.rules, hkeeps.facts, hkeeps.isTranslation,
    fun m hm => mirrors_sharedTheory hm edits⟩

/-- Facts that came before their atom was declared inconsistent are compiled anew, and the copies
that a check makes of them share what is compiled until they outgrow it. -/
theorem theory_isTranslation_declared :
    let edits : List Edit := [.addFact (.atom "a"), .addFact (.not (.atom "a")), .satisfiable none,
      .addRule ⟨.atom "a", .atom "b", .atom "b"⟩, .setInconsistent ["a"], .entails (.atom "b")]
    let check : InMemory solve Bool := do
      let t ← sharedTheory edits
      t.generatesIn (InMemory solve) [0]
    let u := normalForms solve edits
    u.facts = [.atom "a", .atom "a^-"] ∧ (u.generates []).value = false ∧
      (u.generates [0]).value = true ∧ (check.run {}).value.2.taken ≤ UInt64.size ∧
      (check.run {}).value.1 = true := by
  intro edits check u
  obtain ⟨-, -, htranslation, hmirrors⟩ := theory_isTranslation solve edits
  have hfacts : u.facts = [.atom "a", .atom "a^-"] := by cbv
  have hnone : (u.generates []).value = false := by cbv
  have hone : (u.generates [0]).value = true := by cbv
  have htaken : (check.run {}).value.2.taken ≤ UInt64.size := by
    have hsix : (check.run {}).value.2.taken = 6 := by
      subst check edits
      cbv
    rw [hsix]
    decide
  have hcheck : Mirrors {} check (theory solve edits >>= (·.generates [0])) fun _ => Eq :=
    (hmirrors {} fun _ h => absurd h List.not_mem_nil).bind fun _ _ m hacts hm _ =>
      hacts.generates m (.refl m) hm [0]
  have hanswer := (hcheck htaken).same
  rw [Logged.value_bind, ← htranslation.generates [0]] at hanswer
  exact ⟨hfacts, hnone, hone, htaken, hanswer.trans hone⟩

end Edit

end DefaultLogic
