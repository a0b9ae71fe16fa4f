import DefaultLogic.Proofs.Theory.Classical
import DefaultLogic.Theory.Paraconsistent
import Mathlib.Data.List.Sort

/-!
# Paraconsistent theories answer by the truth of normal forms

The compiled theory is *fresh* if it was compiled from the formulas and the inconsistent atoms as
they are now.  Additions and declarations discard it and checks leave it as it is.

* `value_satisfiable`, `value_entails`: a check asks the classical theory of the normal forms.
* `mem_sortedNames`: declared atoms are kept, in another order.
* `reading`: **with a solver that decides, checks answer by the truth of the normal forms.**
-/

namespace DefaultLogic

open DefaultLogic.Sat

/-! ## Names in order -/

private theorem mem_eraseReps_loop {a last : String} {names kept : List String} :
    a ∈ List.eraseRepsBy.loop (· == ·) last names kept ↔ a = last ∨ a ∈ names ∨ a ∈ kept := by
  induction names generalizing last kept with
  | nil =>
    rw [List.eraseRepsBy.loop, List.mem_reverse, List.mem_cons]
    exact or_congr_right (or_iff_right List.not_mem_nil).symm
  | cons n names ih =>
    rw [List.eraseRepsBy.loop]
    split
    · next heq =>
      obtain rfl := eq_of_beq heq
      rw [ih, List.mem_cons, or_assoc, or_self_left]
    · rw [ih, List.mem_cons, List.mem_cons, ← or_assoc]
      exact or_left_comm

private theorem mem_eraseReps {a : String} {names : List String} :
    a ∈ names.eraseReps ↔ a ∈ names := by
  cases names with
  | nil => rfl
  | cons n names =>
    refine mem_eraseReps_loop.trans ?_
    rw [or_iff_left List.not_mem_nil, List.mem_cons]

theorem mem_sortedNames {a : String} {names : List String} : a ∈ sortedNames names ↔ a ∈ names := by
  rw [sortedNames, mem_eraseReps]
  exact (List.mergeSort_perm names _).mem_iff

private theorem pairwise_eraseReps_loop {last : String} {names kept : List String}
    (hnames : (last :: names).Pairwise (· ≤ ·)) (hkept : (last :: kept).Pairwise (· > ·)) :
    (List.eraseRepsBy.loop (· == ·) last names kept).Pairwise (· < ·) := by
  induction names generalizing last kept with
  | nil => exact List.pairwise_reverse.2 hkept
  | cons n names ih =>
    obtain ⟨hlast, hrest⟩ := List.pairwise_cons.1 hnames
    rw [List.eraseRepsBy.loop]
    split
    · next heq =>
      obtain rfl := eq_of_beq heq
      exact ih hrest hkept
    · next hne =>
      have hlt : last < n :=
        Std.lt_of_le_of_ne (hlast n List.mem_cons_self) (beq_eq_false_iff_ne.1 hne)
      refine ih hrest (List.pairwise_cons.2 ⟨fun a ha => ?_, hkept⟩)
      rcases List.mem_cons.1 ha with rfl | ha
      · exact hlt
      · exact String.lt_trans ((List.pairwise_cons.1 hkept).1 a ha) hlt

theorem sortedNames_nil : sortedNames [] = [] := by
  rw [sortedNames, List.mergeSort_nil]
  rfl

theorem pairwise_sortedNames (names : List String) : (sortedNames names).Pairwise (· < ·) := by
  have hsorted : (names.mergeSort fun a b => a ≤ b).Pairwise (· ≤ ·) := by
    have h : (names.mergeSort fun a b => a ≤ b).Pairwise fun a b => decide (a ≤ b) = true := by
      apply List.pairwise_mergeSort
      · intro a b c hab hbc
        exact decide_eq_true (String.le_trans (of_decide_eq_true hab) (of_decide_eq_true hbc))
      · intro a b
        rw [Bool.or_eq_true, decide_eq_true_iff, decide_eq_true_iff]
        exact String.le_total a b
    exact h.imp of_decide_eq_true
  rw [sortedNames]
  cases hnames : names.mergeSort fun a b => a ≤ b with
  | nil => exact .nil
  | cons n rest =>
    rw [hnames] at hsorted
    exact pairwise_eraseReps_loop hsorted (List.pairwise_singleton _ n)

theorem sortedNames_eq_iff {names names' : List String} :
    sortedNames names = sortedNames names' ↔ ∀ a, a ∈ names ↔ a ∈ names' := by
  constructor
  · intro h a
    rw [← mem_sortedNames, h, mem_sortedNames]
  · intro h
    refine (pairwise_sortedNames names).eq_of_mem_iff (pairwise_sortedNames names') fun a => ?_
    rw [mem_sortedNames, mem_sortedNames]
    exact h a

theorem pnnf_sortedNames (names : List String) :
    Formula.pnnf (sortedNames names) = Formula.pnnf names := by
  have hcontains : (sortedNames names).contains = names.contains := by
    funext a
    rw [Bool.eq_iff_iff, List.contains_iff_mem, List.contains_iff_mem, mem_sortedNames]
  rw [Formula.pnnf, Formula.pnnf, NegationStyle.paraconsistent, NegationStyle.paraconsistent,
    hcontains]

namespace ParaconsistentTheory

variable {solver : Solver} {t : ParaconsistentTheory solver}

/-! ## The compiled theory -/

/-- A compiled theory, if there is one, is that of the present formulas and inconsistent atoms. -/
def IsFresh (t : ParaconsistentTheory solver) : Prop := ∀ c, t.compiled? = some c → c = t.classical

theorem isFresh_of_none (h : t.compiled? = none) : t.IsFresh := by
  intro c hc
  rw [h] at hc
  cases hc

theorem isFresh_setInconsistent (h : t.IsFresh) (names : List String) :
    (t.setInconsistent names).IsFresh := by
  rw [setInconsistent]
  split
  · exact h
  · exact isFresh_of_none rfl

theorem formulas_setInconsistent (names : List String) :
    (t.setInconsistent names).formulas = t.formulas := by
  rw [setInconsistent]
  split <;> rfl

theorem inconsistent_setInconsistent (names : List String) :
    (t.setInconsistent names).inconsistent = sortedNames names := by
  rw [setInconsistent]
  split
  · next h => exact h.symm
  · rfl

def compiled (t : ParaconsistentTheory solver) : ParaconsistentTheory solver :=
  { t with compiled? := some t.classical }

theorem isFresh_compiled (t : ParaconsistentTheory solver) : t.compiled.IsFresh :=
  fun _ hc => (Option.some.inj hc).symm

theorem value_compile (h : t.IsFresh) : t.compile.value = (t.classical, t.compiled) := by
  rw [compile]
  split
  · next c hc =>
    obtain rfl := h c hc
    rw [compiled, ← hc]
    rfl
  · rfl

/-! ## Checks -/

theorem isCompiled_classical (t : ParaconsistentTheory solver) : t.classical.IsCompiled :=
  ClassicalTheory.isCompiled_ofFormulas _

/-- **A check asks the classical theory of the normal forms**, and keeps it. -/
theorem value_satisfiable (h : t.IsFresh) (f? : Option Formula) :
    (t.satisfiable f?).value =
      ((t.classical.satisfiable (f?.map (·.pnnf t.inconsistent))).value, t.compiled) := by
  have hcheck : (GroundLogic.satisfiable (f?.map (·.pnnf t.inconsistent)) t.classical).value =
      ((t.classical.satisfiable (f?.map (·.pnnf t.inconsistent))).value, t.classical) :=
    congrArg (Prod.mk _) (ClassicalTheory.after_eq t.isCompiled_classical.isExact _)
  rw [satisfiable, Logged.value_bind, value_compile h]
  show (GroundLogic.satisfiable (f?.map (·.pnnf t.inconsistent)) t.classical >>= _).value = _
  rw [Logged.value_bind, hcheck]
  rfl

theorem value_entails (h : t.IsFresh) (f : Formula) :
    (t.entails f).value = ((t.classical.entails (f.pnnf t.inconsistent)).value, t.compiled) := by
  have hcheck : (GroundLogic.entails (f.pnnf t.inconsistent) t.classical).value =
      ((t.classical.entails (f.pnnf t.inconsistent)).value, t.classical) :=
    congrArg (Prod.mk _) (ClassicalTheory.after_eq t.isCompiled_classical.isExact (some _))
  rw [entails, Logged.value_bind, value_compile h]
  show (GroundLogic.entails (f.pnnf t.inconsistent) t.classical >>= _).value = _
  rw [Logged.value_bind, hcheck]
  rfl

/-! ## The reading -/

/-- **With a solver that decides, theories with the given inconsistent atoms take formulas through
their normal forms.** -/
def reading (hs : solver.Decides) (inconsistent : List String) :
    Reading (ParaconsistentTheory solver) where
  Reads m fs t := m = Formula.pnnf inconsistent ∧ t.inconsistent = sortedNames inconsistent ∧
    t.formulas = fs ∧ t.IsFresh
  formulas h := h.2.2.1
  add f h := ⟨h.1, h.2.1, congrArg (· ++ [f]) h.2.2.1, isFresh_of_none rfl⟩
  afterSatisfiable f? h := by
    obtain ⟨hm, hi, hfs, hfresh⟩ := h
    have hvalue : (GroundLogic.satisfiable f? _).value.2 = _ :=
      congrArg Prod.snd (value_satisfiable hfresh f?)
    rw [hvalue]
    exact ⟨hm, hi, hfs, isFresh_compiled _⟩
  satisfiable_iff f? h := by
    obtain ⟨rfl, hi, rfl, hfresh⟩ := h
    have hvalue : (GroundLogic.satisfiable f? _).value.1 = _ :=
      congrArg Prod.fst (value_satisfiable hfresh f?)
    rw [hvalue, ClassicalTheory.value_satisfiable_iff hs (isCompiled_classical _), classical,
      ClassicalTheory.formulas_ofFormulas, hi, pnnf_sortedNames, List.map_append]
    cases f? <;> rfl
  afterEntails f h := by
    obtain ⟨hm, hi, hfs, hfresh⟩ := h
    have hvalue : (GroundLogic.entails f _).value.2 = _ :=
      congrArg Prod.snd (value_entails hfresh f)
    rw [hvalue]
    exact ⟨hm, hi, hfs, isFresh_compiled _⟩
  entails_iff f h := by
    obtain ⟨rfl, hi, rfl, hfresh⟩ := h
    have hvalue : (GroundLogic.entails f _).value.1 = _ :=
      congrArg Prod.fst (value_entails hfresh f)
    rw [hvalue, ClassicalTheory.value_entails_iff hs (isCompiled_classical _), classical,
      ClassicalTheory.formulas_ofFormulas, hi, pnnf_sortedNames]

theorem reads_empty (hs : solver.Decides) :
    (reading hs []).Reads (Formula.pnnf []) [] ({} : ParaconsistentTheory solver) := by
  exact ⟨rfl, sortedNames_nil.symm, rfl, isFresh_of_none rfl⟩

theorem reads_setInconsistent (hs : solver.Decides) {old : List String} {m : Formula → Formula}
    {fs : List Formula} (h : (reading hs old).Reads m fs t) (inconsistent : List String) :
    (reading hs inconsistent).Reads (Formula.pnnf inconsistent) fs
      (t.setInconsistent inconsistent) := by
  obtain ⟨-, -, hfs, hfresh⟩ := h
  refine ⟨rfl, inconsistent_setInconsistent inconsistent, ?_, ?_⟩
  · rw [formulas_setInconsistent]
    exact hfs
  · exact isFresh_setInconsistent hfresh inconsistent

end ParaconsistentTheory

end DefaultLogic
