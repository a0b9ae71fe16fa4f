import DefaultLogic.Proofs.Sat.Numbering

/-!
# Numberings under insertions and cuts

An atom that is cut off and inserted again may get another variable, so the variables of a numbering
depend on all that was done to it; what is below every cut stays.

* `isExact_truncate`, `index?_truncate`: a cut takes the variables from a size on, and no others.
* `isExact_after`: however atoms are inserted and cut off, the table is the one of the names.
* `prefix_after`: **names that no cut reaches stay where they are.**
* `after_restores`: the two directions stay inverse to each other, atoms keep their variables until
  a cut reaches them, and cutting takes back what was inserted.
-/

namespace DefaultLogic.Sat.Numbering

variable {n : Numbering}

/-! ## Cuts -/

theorem truncate_of_size_le {size : Nat} (h : n.size ≤ size) : n.truncate size = n := by
  have hkeep : (n.table.filter fun p => !([] : List String).contains p.1) = n.table :=
    List.filter_eq_self.2 fun _ _ => rfl
  rw [truncate, List.take_of_length_le h, List.drop_eq_nil_of_le h, hkeep]

theorem isExact_truncate (h : n.IsExact) (size : Nat) : (n.truncate size).IsExact := by
  rcases Nat.le_total n.size size with hsize | hsize
  · rw [truncate_of_size_le hsize]
    exact h
  · -- what is left is the numbering that the first names have by themselves
    have hfirst : IsExact ⟨n.names.take size, (n.names.take size).zipIdx⟩ :=
      ⟨h.nodup.sublist (List.take_sublist size n.names), rfl⟩
    have hcut := hfirst.truncate_eq h (List.take_prefix size n.names)
    rw [Numbering.size, List.length_take_of_le hsize] at hcut
    rw [hcut]
    exact hfirst

/-- **A cut takes the variables from a size on, and no others.** -/
theorem index?_truncate (h : n.IsExact) (name : String) (size : Nat) :
    (n.truncate size).index? name = (n.index? name).filter (· < size) := by
  refine Option.ext fun i => ?_
  rw [(isExact_truncate h size).index?_eq_some_iff, Option.filter_eq_some_iff,
    h.index?_eq_some_iff, decide_eq_true_iff]
  show (n.names.take size)[i]? = some name ↔ n.names[i]? = some name ∧ i < size
  rw [List.getElem?_take]
  split
  · next hi => exact (and_iff_left hi).symm
  · next hi => exact iff_of_false nofun fun hname => hi hname.2

/-! ## Steps -/

/-- What is done to a numbering: an atom is inserted, by itself or for a literal, or atoms are cut
off. -/
inductive Step where
  | insert (name : String)
  | literal (a : SignedAtom)
  | truncate (size : Nat)

namespace Step

def apply (n : Numbering) : Step → Numbering
  | .insert name => (n.insert name).1
  | .literal a => (n.literal a).1
  | .truncate size => n.truncate size

/-- Whether a step cuts off no variable below a bound.  An insertion cuts off none at all. -/
def Spares (bound : Nat) : Step → Prop
  | .insert _ => True
  | .literal _ => True
  | .truncate size => bound ≤ size

theorem isExact_apply (h : n.IsExact) (step : Step) : (step.apply n).IsExact := by
  cases step with
  | insert name => exact isExact_insert h name
  | literal a => exact isExact_insert h a.1
  | truncate size => exact isExact_truncate h size

theorem prefix_apply {names : List String} (h : names <+: n.names) {step : Step}
    (hstep : step.Spares names.length) : names <+: (step.apply n).names := by
  cases step with
  | insert name => exact h.trans (prefix_insert n name)
  | literal a => exact h.trans (prefix_insert n a.1)
  | truncate size => exact List.prefix_take_iff.2 ⟨h, hstep⟩

end Step

/-! ## Runs -/

def after (n : Numbering) (steps : List Step) : Numbering := steps.foldl Step.apply n

theorem isExact_after (h : n.IsExact) (steps : List Step) : (n.after steps).IsExact := by
  induction steps generalizing n with
  | nil => exact h
  | cons step steps ih => exact ih (step.isExact_apply h)

/-- **Names that no cut reaches stay where they are.** -/
theorem prefix_after {names : List String} (h : names <+: n.names) {steps : List Step}
    (hsteps : ∀ step ∈ steps, step.Spares names.length) : names <+: (n.after steps).names := by
  induction steps generalizing n with
  | nil => exact h
  | cons step steps ih =>
    obtain ⟨hstep, hsteps⟩ := List.forall_mem_cons.1 hsteps
    exact ih (Step.prefix_apply h hstep) hsteps

theorem index?_after (h : n.IsExact) {name : String} {i : Nat} (hi : n.index? name = some i)
    {steps : List Step} (hsteps : ∀ step ∈ steps, step.Spares (i + 1)) :
    (n.after steps).index? name = some i := by
  have hcut : (n.truncate (i + 1)).IsExact := isExact_truncate h (i + 1)
  have hlt : i < n.names.length := (List.getElem?_eq_some_iff.1 (h.index?_eq_some_iff.1 hi)).1
  have hfirst : (n.truncate (i + 1)).index? name = some i := by
    rw [index?_truncate h, hi, Option.filter_some, if_pos (decide_eq_true i.lt_succ_self)]
  have hstay : (n.truncate (i + 1)).names <+: (n.after steps).names := by
    refine prefix_after (List.take_prefix (i + 1) n.names) ?_
    rw [List.length_take_of_le hlt]
    exact hsteps
  exact hcut.index?_of_prefix (isExact_after h steps) hstay hfirst

theorem truncate_after (h : n.IsExact) {steps : List Step}
    (hsteps : ∀ step ∈ steps, step.Spares n.size) : (n.after steps).truncate n.size = n :=
  h.truncate_eq (isExact_after h steps) (prefix_after List.prefix_rfl hsteps)

/-- Whether the names are numbered from zero on, each with a variable of its own, and looked up both
ways alike. -/
structure IsBijective (n : Numbering) : Prop where
  nodup : n.names.Nodup
  inverse : ∀ name i, n.index? name = some i ↔ n.name? i = some name
  numbered : ∀ i, (∃ name, n.index? name = some i) ↔ i < n.size

theorem IsExact.isBijective (h : n.IsExact) : n.IsBijective := by
  refine ⟨h.nodup, fun _ _ => h.index?_eq_some_iff, fun i => ?_⟩
  simp only [h.index?_eq_some_iff, name?, List.getElem?_eq_some_iff, size]
  constructor
  · rintro ⟨name, hi, -⟩
    exact hi
  · intro hi
    exact ⟨n.names[i], hi, rfl⟩

/-- **However atoms are inserted and cut off, the variables are those below the number of atoms and
belong to one atom each**; an inserted atom has the variable that the insertion answers, and keeps
it until a cut to a size at or below it takes it away; and when nothing is cut off below the size of
a numbering, as by insertions alone, cutting to that size gives the numbering back. -/
theorem after_restores (steps : List Step) :
    let n := ({} : Numbering).after steps
    n.IsBijective ∧
      (∀ name, (n.insert name).1.index? name = some (n.insert name).2) ∧
      (∀ name i, n.index? name = some i →
        ∀ later : List Step, (∀ step ∈ later, step.Spares (i + 1)) →
          (n.after later).index? name = some i) ∧
      (∀ name size, (n.truncate size).index? name = (n.index? name).filter (· < size)) ∧
      ∀ later : List Step, (∀ step ∈ later, step.Spares n.size) →
        (n.after later).truncate n.size = n := by
  intro n
  have h : n.IsExact := isExact_after isExact_empty steps
  exact ⟨h.isBijective, index?_insert h, fun _ _ hi _ => index?_after h hi, index?_truncate h,
    fun _ => truncate_after h⟩

/-- An atom gets another variable once it is cut off, and keeps that one while atoms come and go
behind it. -/
theorem after_restores_again :
    let steps : List Step := [.insert "a", .literal ("b", false), .insert "c", .truncate 1,
      .literal ("c", true), .insert "b"]
    let n := ({} : Numbering).after steps
    let later : List Step := [.insert "d", .insert "e", .truncate 4, .literal ("a", false)]
    n.names = ["a", "c", "b"] ∧ (n.after later).index? "b" = some 2 ∧
      (n.after later).names = ["a", "c", "b", "d"] ∧ (n.after later).truncate n.size = n ∧
      (n.truncate 2).index? "b" = none := by
  intro steps n later
  obtain ⟨-, -, hkept, hcut, hrestored⟩ := after_restores steps
  have hb : n.index? "b" = some 2 := by decide
  have hspares : ∀ step ∈ later, step.Spares 3 := by simp [later, Step.Spares]
  exact ⟨by decide, hkept "b" 2 hb later hspares, by decide, hrestored later hspares,
    by rw [hcut "b" 2, hb]; rfl⟩

end DefaultLogic.Sat.Numbering
