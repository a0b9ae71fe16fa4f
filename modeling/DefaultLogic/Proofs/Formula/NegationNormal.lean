import DefaultLogic.Formula.NormalForm

/-!
# The shape of the classical normal form

Negations have nothing left to pass once they stand at the atoms.  Internal implications and
equivalences are kept, with operands in normal form, so the form has three kinds of compound
formulas and the negated atoms.

* `isNegationNormal_push`: **pushing ends in normal form**, whatever the sign.
* `occurrences_push`: the atoms stay where they are.
* `nnf_eq_self_iff`: **the formulas that pushing leaves alone are those in normal form.**
-/

namespace DefaultLogic

namespace Formula

/-- Whether no implication is material and nothing but atoms is negated. -/
inductive IsNegationNormal : Formula → Prop
  | atom (name : String) : IsNegationNormal (.atom name)
  | negated (name : String) : IsNegationNormal (.not (.atom name))
  | junction (j : Junction) {fs : List Formula} :
    (∀ f ∈ fs, IsNegationNormal f) → IsNegationNormal (.junction j fs)
  | internal {l r : Formula} :
    IsNegationNormal l → IsNegationNormal r → IsNegationNormal (.implication l r)
  | equivalence {l r : Formula} :
    IsNegationNormal l → IsNegationNormal r → IsNegationNormal (.equiv l r)

theorem IsNegationNormal.pair (j : Junction) {l r : Formula} (hl : l.IsNegationNormal)
    (hr : r.IsNegationNormal) : IsNegationNormal (.junction j [l, r]) :=
  .junction j (List.forall_mem_cons.2 ⟨hl, List.forall_mem_singleton.2 hr⟩)

/-- **Pushing negations ends in normal form**, for a formula as for its negation. -/
theorem isNegationNormal_push (f : Formula) (positive : Bool) :
    (f.push .classical positive).IsNegationNormal := by
  induction f generalizing positive with
  | atom name =>
    cases positive with
    | true => exact .atom name
    | false => exact .negated name
  | not f ih => exact ih !positive
  | junction j fs ih =>
    rw [push_junction]
    exact .junction _ (List.forall_mem_map.2 fun f hf => ih f hf positive)
  | arrow a l r ihl ihr =>
    cases a with
    | material => exact .pair _ (ihl !positive) (ihr positive)
    | internal =>
      cases positive with
      | true => exact .internal (ihl true) (ihr true)
      | false => exact .pair .and (ihl true) (ihr false)
    | equivalence => exact .equivalence (ihl true) (ihr positive)

theorem occurrences_pair (j : Junction) (l r : Formula) :
    (junction j [l, r]).occurrences = l.occurrences ++ r.occurrences := by
  rw [occurrences_junction, List.flatMap_cons, List.flatMap_singleton]

theorem occurrences_push (f : Formula) (positive : Bool) :
    (f.push .classical positive).occurrences = f.occurrences := by
  induction f generalizing positive with
  | atom name => cases positive <;> rfl
  | not f ih => exact ih !positive
  | junction j fs ih =>
    have hmap : fs.map (occurrences ∘ push .classical positive) = fs.map occurrences :=
      List.map_congr_left fun f hf => ih f hf positive
    rw [push_junction, occurrences_junction, occurrences_junction, List.flatMap_def,
      List.flatMap_def, List.map_map, hmap]
  | arrow a l r ihl ihr =>
    cases a with
    | material => rw [push, occurrences_pair, ihl, ihr, occurrences]
    | internal =>
      rw [push]
      cases positive with
      | true =>
        show (implication (l.push .classical true) (r.push .classical true)).occurrences = _
        rw [occurrences, ihl, ihr, occurrences]
      | false =>
        rw [if_pos Bool.not_false, occurrences_pair, ihl, ihr, occurrences]
    | equivalence => rw [push, occurrences, ihl, ihr, occurrences]

/-- **The formulas that pushing leaves alone are those in normal form.** -/
theorem nnf_eq_self_iff {f : Formula} : f.nnf = f ↔ f.IsNegationNormal := by
  constructor
  · intro h
    rw [← h]
    exact isNegationNormal_push f true
  · intro h
    induction h with
    | atom name => rfl
    | negated name => rfl
    | @junction j fs _ ih =>
      have hfs : fs.map nnf = fs := (List.map_congr_left ih).trans (List.map_id fs)
      rw [nnf, push_junction, if_pos rfl]
      exact congrArg _ hfs
    | @internal l r _ _ ihl ihr =>
      show implication l.nnf r.nnf = _
      rw [ihl, ihr]
    | @equivalence l r _ _ ihl ihr =>
      show equiv l.nnf r.nnf = _
      rw [ihl, ihr]

/-- **The classical normal form has no material implication and negates nothing but atoms**, has the
atoms of the formula in the order in which they first occur, and is its own normal form. -/
theorem nnf_isNegationNormal (f : Formula) :
    f.nnf.IsNegationNormal ∧ f.nnf.atoms = f.atoms ∧ f.nnf.nnf = f.nnf := by
  have hnormal : f.nnf.IsNegationNormal := isNegationNormal_push f true
  refine ⟨hnormal, ?_, nnf_eq_self_iff.2 hnormal⟩
  rw [atoms, nnf, occurrences_push, atoms]

/-- A negation passes an internal implication, and keeps the one that stands positively. -/
example : let a := atom "a"; let b := atom "b"
    nnf (.not (.imply (.implication a (.not b)) (.implication b a))) =
      .and [.implication a (.not b), .and [b, .not a]] := by
  decide

end Formula

end DefaultLogic
