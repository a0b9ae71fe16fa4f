import DefaultLogic.Proofs.Sat.Numbering
import DefaultLogic.Proofs.Theory.Ground
import DefaultLogic.Theory.Classical

/-!
# Classical theories answer by the truth of their formulas

A theory is *compiled* from formulas when its clauses are the numbered clauses of these formulas,
under an exact numbering of their atoms.

* `Encodes.satisfiable_iff`: then the clauses are satisfiable exactly when the formulas are.
* `isCompiled_add`, `after_eq`: adding a formula keeps a theory compiled from its formulas, and a
  query leaves no trace.
* `model_eq_none_iff`, `satisfies_of_model`: a model is found when there is one, and is one.
* `value_satisfiable_iff`, `value_entails_iff`: **with a solver that decides, checks answer by the
  truth of the formulas that were added**, whatever atoms the query has.
-/

namespace DefaultLogic

open DefaultLogic.Sat

namespace ClassicalTheory

variable {solver : Solver}

/-- The clauses of the theory are those of the given formulas, whose atoms have numbers. -/
structure Encodes (t : ClassicalTheory solver) (fs : List Formula) : Prop where
  isExact : t.atoms.IsExact
  known : ∀ f ∈ fs, ∀ c ∈ f.clauses, ∀ a ∈ c, a.1 ∈ t.atoms.names
  clauses : t.clauses = fs.flatMap fun f => t.atoms.encode f.clauses

def IsCompiled (t : ClassicalTheory solver) : Prop := t.Encodes t.formulas

/-! ## Building -/

theorem encodes_empty : ({} : ClassicalTheory solver).Encodes [] :=
  ⟨Numbering.isExact_empty, fun _ hf => absurd hf List.not_mem_nil, rfl⟩

theorem Encodes.of_prefix {t : ClassicalTheory solver} {fs : List Formula} (h : t.Encodes fs)
    {n : Numbering} (hn : n.IsExact) (hpre : t.atoms.names <+: n.names) (gs : List Formula) :
    (⟨gs, n, t.clauses⟩ : ClassicalTheory solver).Encodes fs where
  isExact := hn
  known f hf c hc a ha := hpre.subset (h.known f hf c hc a ha)
  clauses := by
    show t.clauses = _
    rw [h.clauses, List.flatMap_def, List.flatMap_def]
    refine congrArg _ (List.map_congr_left fun f hf => ?_)
    exact Numbering.encode_of_prefix h.isExact hn hpre (h.known f hf)

theorem Encodes.addClauses {t : ClassicalTheory solver} {fs : List Formula} (h : t.Encodes fs)
    (f : Formula) : (t.addClauses f).Encodes (fs ++ [f]) := by
  obtain ⟨hext, heq⟩ := Numbering.extends_clauses h.isExact f.clauses
  have hold := h.of_prefix hext.isExact hext.isPrefix t.formulas
  refine ⟨hext.isExact, ?_, ?_⟩
  · intro g hg
    rcases List.mem_append.1 hg with hg | hg
    · exact hold.known g hg
    · obtain rfl := List.mem_singleton.1 hg
      exact fun c hc a ha => hext.mem a (List.mem_flatten.2 ⟨c, hc, ha⟩)
  · have hnew : [f].flatMap (fun g => (t.atoms.clauses f.clauses).1.encode g.clauses) =
        (t.atoms.clauses f.clauses).2 := by
      rw [List.flatMap_cons, List.flatMap_nil, List.append_nil, heq]
    rw [List.flatMap_append]
    exact (congrArg (· ++ _) hold.clauses).trans (congrArg (_ ++ ·) hnew.symm)

theorem isCompiled_empty : IsCompiled ({} : ClassicalTheory solver) := encodes_empty

theorem isCompiled_add {t : ClassicalTheory solver} (h : t.IsCompiled) (f : Formula) :
    (t.add f).IsCompiled := by
  have hinsert := h.of_prefix (Numbering.isExact_insertAll h.isExact f.atoms)
    (Numbering.prefix_insertAll _ _) (t.formulas ++ [f])
  exact hinsert.addClauses f

theorem isCompiled_ofFormulas (fs : List Formula) :
    (ofFormulas fs : ClassicalTheory solver).IsCompiled := by
  have hfold : ∀ t : ClassicalTheory solver, t.IsCompiled → (fs.foldl add t).IsCompiled := by
    induction fs with
    | nil => exact fun t h => h
    | cons f fs ih => exact fun t h => ih (t.add f) (isCompiled_add h f)
  exact hfold {} isCompiled_empty

theorem ofFormulas_concat (fs : List Formula) (f : Formula) :
    (ofFormulas (fs ++ [f]) : ClassicalTheory solver) = (ofFormulas fs).add f := by
  rw [ofFormulas, List.foldl_append]
  rfl

theorem formulas_ofFormulas (fs : List Formula) :
    (ofFormulas fs : ClassicalTheory solver).formulas = fs := by
  have hfold : ∀ t : ClassicalTheory solver, (fs.foldl add t).formulas = t.formulas ++ fs := by
    induction fs with
    | nil => exact fun t => (List.append_nil t.formulas).symm
    | cons f fs ih =>
      intro t
      rw [List.foldl_cons, ih, List.append_cons]
      rfl
  exact hfold {}

/-! ## Queries -/

theorem Encodes.during {t : ClassicalTheory solver} {fs : List Formula} (h : t.Encodes fs)
    (f? : Option Formula) : (t.during f?).Encodes (fs ++ f?.toList) := by
  cases f? with
  | none =>
    rw [Option.toList_none, List.append_nil]
    exact h
  | some f => exact h.addClauses f

/-- **A query leaves no trace**: its clauses and the atoms that only it has are cut off again. -/
theorem after_eq {t : ClassicalTheory solver} (h : t.atoms.IsExact) (f? : Option Formula) :
    t.after f? = t := by
  cases f? with
  | none => rfl
  | some f =>
    obtain ⟨hext, -⟩ := Numbering.extends_clauses h f.clauses
    have hatoms : (t.atoms.clauses f.clauses).1.truncate t.atoms.size = t.atoms :=
      h.truncate_eq hext.isExact hext.isPrefix
    have hclauses :
        (t.clauses ++ (t.atoms.clauses f.clauses).2).take t.clauses.length = t.clauses :=
      List.take_left
    simp only [after, during, addClauses, cut, hatoms, hclauses]

/-! ## Meaning -/

theorem Encodes.holds_iff {t : ClassicalTheory solver} {fs : List Formula} (h : t.Encodes fs)
    {a : Assignment} {v : Valuation} (hav : t.atoms.Matches a v) :
    (∀ c ∈ t.clauses, c.holds a = true) ↔ Satisfies v fs := by
  have hf : ∀ f ∈ fs, (t.atoms.encode f.clauses).all (·.holds a) = f.eval v := by
    intro f hf
    rw [Numbering.all_encode h.isExact hav (h.known f hf), Formula.holdAll_clauses_eq]
  rw [h.clauses, List.forall_mem_flatMap]
  refine forall₂_congr fun f hmem => ?_
  rw [← hf f hmem, List.all_eq_true]

/-- **The clauses are satisfiable exactly when the formulas are.** -/
theorem Encodes.satisfiable_iff {t : ClassicalTheory solver} {fs : List Formula}
    (h : t.Encodes fs) : Satisfiable t.clauses ↔ ∃ v, Satisfies v fs := by
  constructor
  · rintro ⟨a, ha⟩
    exact ⟨t.atoms.valuation a, (h.holds_iff (t.atoms.matches_valuation a)).1 ha⟩
  · rintro ⟨v, hv⟩
    exact ⟨t.atoms.assignment v, (h.holds_iff (Numbering.matches_assignment h.isExact v)).2 hv⟩

theorem value_satisfiable_iff (hs : solver.Decides) {t : ClassicalTheory solver} (h : t.IsCompiled)
    (f? : Option Formula) :
    (t.satisfiable f?).value = true ↔ ∃ v, Satisfies v (t.formulas ++ f?.toList) := by
  rw [← (Encodes.during h f?).satisfiable_iff, satisfiable, check]
  have hcs := hs (t.during f?).clauses
  cases he : solver (t.during f?).clauses with
  | sat model =>
    rw [he] at hcs
    exact iff_of_true rfl hcs
  | unsat =>
    rw [he] at hcs
    exact iff_of_false Bool.false_ne_true hcs
  | unknown =>
    rw [he] at hcs
    exact hcs.elim

theorem value_entails_iff (hs : solver.Decides) {t : ClassicalTheory solver} (h : t.IsCompiled)
    (f : Formula) : (t.entails f).value = true ↔ Entails t.formulas f := by
  have hsat := value_satisfiable_iff hs h (some (.not f))
  have hnone : (¬∃ v, Satisfies v (t.formulas ++ [.not f])) ↔ Entails t.formulas f := by
    refine not_exists.trans (forall_congr' fun v => ?_)
    rw [satisfies_append, satisfies_singleton, Formula.eval]
    cases f.eval v <;> simp
  rw [entails, Logged.value_map, ← hnone, ← Option.toList_some, ← hsat]
  cases (t.satisfiable (some (.not f))).value <;> simp

/-! ## Models -/

theorem Encodes.exists_name {t : ClassicalTheory solver} {fs : List Formula} (h : t.Encodes fs)
    {c : Clause} (hc : c ∈ t.clauses) {l : Literal} (hl : l ∈ c.literals) :
    ∃ name, t.atoms.name? l.index = some name := by
  rw [h.clauses] at hc
  obtain ⟨f, hf, hc⟩ := List.mem_flatMap.1 hc
  obtain ⟨as, has, hc⟩ := List.mem_flatMap.1 hc
  have hlas := (Clause.mem_of_ofList? (Option.mem_toList.1 hc)).1 hl
  obtain ⟨a, ha, rfl⟩ := List.mem_map.1 hlas
  obtain ⟨i, hi⟩ := h.isExact.exists_index? (h.known f hf as has a ha)
  rw [Numbering.code_eq hi]
  exact ⟨a.1, h.isExact.index?_eq_some_iff.1 hi⟩

theorem model_eq_none_iff (hs : solver.Decides) {t : ClassicalTheory solver} (h : t.IsCompiled) :
    t.model = none ↔ ¬∃ v, Satisfies v t.formulas := by
  rw [← Encodes.satisfiable_iff h, model, check, during]
  have hcs := hs t.clauses
  cases he : solver t.clauses with
  | sat ls =>
    rw [he] at hcs
    exact iff_of_false (Option.some_ne_none _) (not_not_intro hcs)
  | unsat =>
    rw [he] at hcs
    exact iff_of_true rfl hcs
  | unknown =>
    rw [he] at hcs
    exact hcs.elim

/-- **A valuation that agrees with a model makes all formulas true**, whatever it gives to the atoms
that the model leaves out. -/
theorem satisfies_of_model (hs : solver.FindsModels) {t : ClassicalTheory solver}
    (h : t.IsCompiled) {m : List (String × Bool)} (hm : t.model = some m) {v : Valuation}
    (hv : ∀ p ∈ m, v p.1 = p.2) : Satisfies v t.formulas := by
  rw [model, check, during] at hm
  cases he : solver t.clauses with
  | unsat =>
    rw [he] at hm
    cases hm
  | unknown =>
    rw [he] at hm
    cases hm
  | sat ls =>
    rw [he] at hm
    obtain rfl := Option.some.inj hm
    apply (Encodes.holds_iff h (Numbering.matches_assignment h.isExact v)).1
    intro c hc
    obtain ⟨l, hl, hlc⟩ := hs t.clauses ls he c hc
    obtain ⟨name, hname⟩ := Encodes.exists_name h hc hlc
    have hvalue : v name = l.positive := by
      refine hv (name, l.positive) (List.mem_filterMap.2 ⟨l, hl, ?_⟩)
      rw [hname]
      rfl
    refine Clause.holds_iff.2 ⟨l, hlc, ?_⟩
    rw [Literal.holds, Numbering.assignment, hname, Option.any_some, hvalue, beq_self_eq_true]

/-! ## The reading -/

/-- With a solver that decides, classical theories take formulas as they are. -/
def reading (hs : solver.Decides) : Reading (ClassicalTheory solver) where
  Reads m fs t := m = id ∧ t.formulas = fs ∧ t.IsCompiled
  formulas h := h.2.1
  add f h := ⟨h.1, congrArg (· ++ [f]) h.2.1, isCompiled_add h.2.2 f⟩
  afterSatisfiable f? h := by
    have hafter : (GroundLogic.satisfiable f? _).value.2 = _ := after_eq h.2.2.isExact f?
    rw [hafter]
    exact h
  satisfiable_iff f? h := by
    obtain ⟨rfl, rfl, hc⟩ := h
    rw [List.map_id]
    exact value_satisfiable_iff hs hc f?
  afterEntails f h := by
    have hafter : (GroundLogic.entails f _).value.2 = _ := after_eq h.2.2.isExact (some (.not f))
    rw [hafter]
    exact h
  entails_iff f h := by
    obtain ⟨rfl, rfl, hc⟩ := h
    rw [List.map_id]
    exact value_entails_iff hs hc f

theorem reads_empty (hs : solver.Decides) :
    (reading hs).Reads id [] ({} : ClassicalTheory solver) := ⟨rfl, rfl, isCompiled_empty⟩

end ClassicalTheory

end DefaultLogic
