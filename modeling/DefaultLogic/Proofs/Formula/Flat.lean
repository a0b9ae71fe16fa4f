import DefaultLogic.Formula.Flat
import DefaultLogic.Formula.Semantics

/-!
# The shape of flat junctions

Flattening looks at the junctions that junctions alone lead to from the root.  An operand is made
flat before it is merged, so one that loses its only bracket may turn out to be of the kind that the
junction around it takes in.

* `isFlat_joined`: **flat operands of other kinds make a flat formula**, however many they are.
* `flat_eq_self_iff`: the formulas that flattening leaves alone are the flat ones.
* `eval_flat`: truth values are kept.
-/

namespace DefaultLogic

theorem Junction.eval_flatMap {α : Type} (j : Junction) (xs : List α) (operands : α → List Bool) :
    j.eval (xs.flatMap operands) = j.eval (xs.map fun x => j.eval (operands x)) := by
  cases j with
  | and => simp only [eval, List.all_flatMap, List.all_map, Function.comp_def, id]
  | or => simp only [eval, List.any_flatMap, List.any_map, Function.comp_def, id]

theorem Junction.eval_singleton (j : Junction) (b : Bool) : j.eval [b] = b := by
  cases j with
  | and => exact Bool.and_true b
  | or => exact Bool.or_false b

namespace Formula

/-- Whether junctions alone lead from a formula to a part of it. -/
inductive Joins : Formula → Formula → Prop
  | self (f : Formula) : Joins f f
  | operand {j : Junction} {fs : List Formula} {f g : Formula} :
    f ∈ fs → Joins f g → Joins (.junction j fs) g

/-- Whether no junction that junctions alone lead to has a single operand or one of its own kind. -/
def IsFlat (f : Formula) : Prop :=
  ∀ j fs, f.Joins (.junction j fs) →
    fs.length ≠ 1 ∧ ∀ g ∈ fs, g.connective? ≠ some (.junction j)

theorem isFlat_junction_iff {j : Junction} {fs : List Formula} :
    IsFlat (.junction j fs) ↔ fs.length ≠ 1 ∧
      ∀ f ∈ fs, f.connective? ≠ some (.junction j) ∧ f.IsFlat := by
  constructor
  · intro h
    obtain ⟨hlen, hkind⟩ := h j fs (.self _)
    exact ⟨hlen, fun f hf => ⟨hkind f hf, fun i gs hg => h i gs (.operand hf hg)⟩⟩
  · rintro ⟨hlen, hfs⟩ i gs hg
    cases hg with
    | self => exact ⟨hlen, fun f hf => (hfs f hf).1⟩
    | operand hf hg => exact (hfs _ hf).2 i gs hg

theorem isFlat_of_connective? {f : Formula} (h : ∀ j, f.connective? ≠ some (.junction j)) :
    f.IsFlat := by
  intro j fs hjoins
  cases hjoins with
  | self => exact absurd rfl (h j)
  | @operand i => exact absurd rfl (h i)

/-! ## Merging -/

theorem connective?_eq_junction_iff {f : Formula} {j : Junction} :
    f.connective? = some (.junction j) ↔ ∃ fs, f = .junction j fs := by
  constructor
  · intro h
    cases f with
    | junction i fs =>
      cases h
      exact ⟨fs, rfl⟩
    | atom | not | arrow => cases h
  · rintro ⟨fs, rfl⟩
    rfl

theorem mergedInto_junction (j : Junction) (fs : List Formula) :
    (junction j fs).mergedInto j = fs := if_pos rfl

theorem mergedInto_of_connective? {j : Junction} {f : Formula}
    (h : f.connective? ≠ some (.junction j)) : f.mergedInto j = [f] := by
  cases f with
  | atom | not | arrow => rfl
  | junction i fs =>
    refine if_neg fun hij => h ?_
    subst hij
    rfl

theorem isFlat_of_mem_mergedInto {j : Junction} {f : Formula} (h : f.IsFlat) :
    ∀ g ∈ f.mergedInto j, g.connective? ≠ some (.junction j) ∧ g.IsFlat := by
  by_cases hj : f.connective? = some (.junction j)
  · obtain ⟨fs, rfl⟩ := connective?_eq_junction_iff.1 hj
    rw [mergedInto_junction]
    exact (isFlat_junction_iff.1 h).2
  · rw [mergedInto_of_connective? hj]
    exact List.forall_mem_singleton.2 ⟨hj, h⟩

/-- **Flat operands of other kinds make a flat formula**, a single one being that formula itself. -/
theorem isFlat_joined {j : Junction} {fs : List Formula}
    (h : ∀ f ∈ fs, f.connective? ≠ some (.junction j) ∧ f.IsFlat) : (joined j fs).IsFlat := by
  match fs, h with
  | [], h => exact isFlat_junction_iff.2 ⟨Nat.zero_ne_one, h⟩
  | [f], h => exact (h f List.mem_cons_self).2
  | f :: g :: fs, h =>
    refine isFlat_junction_iff.2 ⟨fun hlen => ?_, h⟩
    cases hlen

theorem isFlat_flat (f : Formula) : f.flat.IsFlat := by
  induction f with
  | atom name => exact isFlat_of_connective? (fun j => nofun)
  | not f => exact isFlat_of_connective? (fun j => nofun)
  | arrow a l r => exact isFlat_of_connective? (fun j => nofun)
  | junction j fs ih =>
    rw [flat_junction]
    refine isFlat_joined fun g hg => ?_
    obtain ⟨f, hf, hg⟩ := List.mem_flatMap.1 hg
    exact isFlat_of_mem_mergedInto (ih f hf) g hg

/-! ## Fixed points -/

theorem joined_of_length {j : Junction} {fs : List Formula} (h : fs.length ≠ 1) :
    joined j fs = .junction j fs := by
  match fs, h with
  | [], _ => rfl
  | [_], h => exact absurd rfl h
  | _ :: _ :: _, _ => rfl

/-- **The formulas that flattening leaves alone are the flat ones.** -/
theorem flat_eq_self_iff {f : Formula} : f.flat = f ↔ f.IsFlat := by
  constructor
  · intro h
    rw [← h]
    exact isFlat_flat f
  · intro h
    induction f with
    | atom | not | arrow => rfl
    | junction j fs ih =>
      obtain ⟨hlen, hfs⟩ := isFlat_junction_iff.1 h
      have hkept : (fs.flatMap fun f => f.flat.mergedInto j) = fs := by
        conv => rhs; rw [← List.flatMap_singleton' fs]
        rw [List.flatMap_def, List.flatMap_def]
        refine congrArg _ (List.map_congr_left fun f hf => ?_)
        rw [ih f hf (hfs f hf).2, mergedInto_of_connective? (hfs f hf).1]
      rw [flat_junction, hkept, joined_of_length hlen]

/-! ## Truth values -/

theorem eval_mergedInto (v : Valuation) (j : Junction) (f : Formula) :
    j.eval ((f.mergedInto j).map (eval v)) = f.eval v := by
  by_cases hj : f.connective? = some (.junction j)
  · obtain ⟨fs, rfl⟩ := connective?_eq_junction_iff.1 hj
    rw [mergedInto_junction, eval_junction]
  · rw [mergedInto_of_connective? hj, List.map_singleton, Junction.eval_singleton]

theorem eval_joined (v : Valuation) (j : Junction) (fs : List Formula) :
    (joined j fs).eval v = j.eval (fs.map (eval v)) := by
  match fs with
  | [] => exact eval_junction v j []
  | [f] => rw [joined, List.map_singleton, Junction.eval_singleton]
  | f :: g :: fs => exact eval_junction v j (f :: g :: fs)

theorem eval_flat (v : Valuation) (f : Formula) : f.flat.eval v = f.eval v := by
  induction f with
  | atom | not | arrow => rfl
  | junction j fs ih =>
    have hmerged : ∀ f ∈ fs, j.eval ((f.flat.mergedInto j).map (eval v)) = f.eval v := by
      intro f hf
      rw [eval_mergedInto, ih f hf]
    rw [flat_junction, eval_joined, List.map_flatMap, Junction.eval_flatMap, eval_junction]
    exact congrArg j.eval (List.map_congr_left hmerged)

/-- **Flattening keeps the truth value under every valuation**, has nothing left to do the second
time, and leaves no junction of a single operand and none within one of its kind, as far as
junctions alone lead from the root. -/
theorem flat_isFlat (f : Formula) :
    (∀ v, f.flat.eval v = f.eval v) ∧ f.flat.flat = f.flat ∧ f.flat.IsFlat :=
  ⟨fun v => eval_flat v f, flat_eq_self_iff.2 (isFlat_flat f), isFlat_flat f⟩

/-- A disjunction of one operand gives way to a conjunction, which the one around it takes in; an
empty conjunction vanishes, and below a negation nothing changes. -/
example : let a := atom "a"; let b := atom "b"; let inner := Formula.and [.and [a, b], a]
    flat (.and [.or [.and [a, b]], .and [], .not inner]) = .and [a, b, .not inner] := by
  decide

end Formula

end DefaultLogic
