import DefaultLogic.Proofs.Theory.States

/-!
# The atoms that a model lists

The solver only knows the variables up to the largest one in the clauses.  An atom whose clauses are
all tautologies may have a number beyond, and then a model leaves it out.

* `Encodes.variableCount_le`, `map_fst_model`: each of these variables belongs to an atom, so a
  model lists the first atoms, all those up to the largest variable.
* `runEach_models`: **after every run of calls, a theory has a model when the formulas added to it
  have one, and the atoms that it lists decide the truth of all these formulas.**
-/

namespace DefaultLogic

open DefaultLogic.Sat

namespace Sat

theorem Numbering.filterMap_name?_range (atoms : Numbering) (n : Nat) :
    (List.range n).filterMap atoms.name? = atoms.names.take n := by
  induction n with
  | zero => rfl
  | succ n ih =>
    rw [List.range_succ, List.filterMap_append, ih, List.take_add_one]
    rfl

end Sat

namespace ClassicalTheory

variable {solver : Solver} {t : ClassicalTheory solver} {fs : List Formula}

/-! ## The listed atoms -/

/-- **Every variable up to the largest in the clauses belongs to an atom.** -/
theorem Encodes.variableCount_le (h : t.Encodes fs) : variableCount t.clauses ≤ t.atoms.size := by
  refine variableCount_le_iff.2 fun c hc l hl => ?_
  obtain ⟨name, hname⟩ := h.exists_name hc hl
  exact (List.getElem?_eq_some_iff.1 hname).1

theorem map_fst_model {m : List (String × Bool)} (hm : t.model = some m) :
    ∃ ls, solver t.clauses = .sat ls ∧
      m.map Prod.fst = (ls.map Literal.index).filterMap t.atoms.name? := by
  rw [model, check, during] at hm
  cases he : solver t.clauses with
  | unsat =>
    rw [he] at hm
    cases hm
  | unknown =>
    rw [he] at hm
    cases hm
  | sat ls =>
    rw [he] at hm
    obtain rfl := Option.some.inj hm
    refine ⟨ls, rfl, ?_⟩
    rw [List.filterMap_map, List.map_filterMap]
    refine List.filterMap_congr fun l _ => ?_
    rw [Option.map_map]
    exact Option.map_id'

/-- What the model of a theory tells about formulas. -/
structure IsModelledBy (t : ClassicalTheory solver) (fs : List Formula) : Prop where
  none_iff : t.model = none ↔ ¬∃ v, Satisfies v fs
  named : variableCount t.clauses ≤ t.atoms.size
  names : ∀ m, t.model = some m → m.map Prod.fst = t.atoms.names.take (variableCount t.clauses)
  nodup : ∀ m, t.model = some m → (m.map Prod.fst).Nodup
  satisfies : ∀ m, t.model = some m → ∀ v : Valuation, (∀ p ∈ m, v p.1 = p.2) → Satisfies v fs

section

variable {engine : Engine} {t : ClassicalTheory engine.solver}

theorem map_fst_model_eq (he : engine.IsCorrect) {m : List (String × Bool)}
    (hm : t.model = some m) :
    m.map Prod.fst = t.atoms.names.take (variableCount t.clauses) := by
  obtain ⟨ls, hls, hnames⟩ := map_fst_model hm
  rw [hnames, (he.of_eq_sat hls).1, Numbering.filterMap_name?_range]

theorem IsCompiled.isModelledBy (he : engine.IsCorrect) (h : t.IsCompiled) :
    t.IsModelledBy t.formulas where
  none_iff := model_eq_none_iff he.decides h
  named := Encodes.variableCount_le h
  names _ hm := map_fst_model_eq he hm
  nodup m hm := by
    rw [map_fst_model_eq he hm]
    exact h.isExact.nodup.sublist (List.take_sublist _ _)
  satisfies _ hm _ hv := satisfies_of_model he.findsModels h hm hv

end

end ClassicalTheory

/-- **After every run of calls, on any mixture of theories and their copies and whatever solvers
answered them, a theory whose solver builds its models of the values of a correct engine has a model
exactly when the formulas added to it have one.**  The model lists the atoms up to the largest
variable of the clauses, each once and in the order of their numbers, and every valuation that
agrees with the list makes all formulas true. -/
theorem runEach_models {engine : Engine} (he : engine.IsCorrect) (cs : List (Solver × Call)) :
    List.Forall₂ ClassicalTheory.IsModelledBy
      (runEach cs ([] : List (ClassicalTheory engine.solver))).value.2
      (recordAll (cs.map Prod.snd) []) := by
  have hrun : (runEach cs ([] : List (ClassicalTheory engine.solver))).value.2 =
      (recordAll (cs.map Prod.snd) []).map ClassicalTheory.ofFormulas :=
    runEach_map_ofFormulas cs []
  rw [hrun, List.forall₂_map_left_iff, List.forall₂_same]
  intro fs _
  have hcompiled : (ClassicalTheory.ofFormulas fs : ClassicalTheory engine.solver).IsCompiled :=
    ClassicalTheory.isCompiled_ofFormulas fs
  have hmodel := hcompiled.isModelledBy he
  rw [ClassicalTheory.formulas_ofFormulas] at hmodel
  exact hmodel

/-- The atom of a tautology is numbered last, beyond the variables of the clauses, and left out. -/
theorem runEach_models_tautology :
    let calls : List (Solver × Call) := [(solve, .create),
      (silent, .add 0 (.or [.atom "p", .not (.atom "q")])), (silent, .entails 0 (.atom "s")),
      (solve, .add 0 (.or [.atom "r", .not (.atom "r")])), (solve, .clone 0),
      (solve, .add 1 (.and [.atom "q", .not (.atom "p")]))]
    let theories := (runEach calls ([] : List (ClassicalTheory learning.solver))).value.2
    learning.IsCorrect ∧
      theories.map (fun t => t.atoms.names) = [["p", "q", "r"], ["p", "q", "r"]] ∧
      theories.map ClassicalTheory.model = [some [("p", false), ("q", false)], none] ∧
      List.Forall₂ ClassicalTheory.IsModelledBy theories (recordAll (calls.map Prod.snd) []) := by
  intro calls theories
  refine ⟨learning_isCorrect, ?_, ?_, runEach_models learning_isCorrect calls⟩
  · show (runEach calls ([] : List (ClassicalTheory learning.solver))).value.2.map _ = _
    cbv
  · show (runEach calls ([] : List (ClassicalTheory learning.solver))).value.2.map _ = _
    cbv

end DefaultLogic
