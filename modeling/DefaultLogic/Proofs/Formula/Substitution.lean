import DefaultLogic.Formula.Semantics
import DefaultLogic.Formula.Substitution

/-!
# Substitution replaces all atoms at once

A replacement is not looked at again, so it may have atoms that are themselves replaced.  The laws
below hold of any assignment of formulas to atoms (`eval_bind`, `bind_bind`, `bind_eq_self`), by
induction on the formula; a substitution is the one that its list of pairs gives.

* `find?_eq_some_iff`: the last pair for an atom counts.
* `eval_subst`: a formula after a substitution is true where the formula itself is once the atoms
  have the truth values of their replacements.
* `subst_subst`: **one substitution after another is a single one.**
-/

namespace DefaultLogic

/-! ## The pair that counts -/

namespace Substitution

variable {s t : Substitution} {name : String}

theorem find?_eq_some_iff {g : Formula} :
    s.find? name = some g ↔
      ∃ before after, s = before ++ (name, g) :: after ∧ ∀ p ∈ after, p.1 ≠ name := by
  have hne : ∀ p : String × Formula, (name != p.1) = true ↔ p.1 ≠ name :=
    fun p => bne_iff_ne.trans ne_comm
  rw [find?, List.lookup_eq_some_iff]
  simp only [hne]
  constructor
  · rintro ⟨after, before, hs, hafter⟩
    refine ⟨before.reverse, after.reverse, ?_, fun p hp => hafter p (List.mem_reverse.1 hp)⟩
    rw [← List.reverse_reverse s, hs, List.reverse_append, List.reverse_cons, List.append_assoc,
      List.singleton_append]
  · rintro ⟨before, after, rfl, hafter⟩
    refine ⟨after.reverse, before.reverse, ?_, fun p hp => hafter p (List.mem_reverse.1 hp)⟩
    rw [List.reverse_append, List.reverse_cons, List.append_assoc, List.singleton_append]

theorem find?_eq_none_iff : s.find? name = none ↔ name ∉ s.map Prod.fst := by
  rw [find?, List.lookup_eq_none_iff, List.mem_map]
  simp only [List.mem_reverse, bne_iff_ne]
  constructor
  · rintro h ⟨p, hp, rfl⟩
    exact h p hp rfl
  · exact fun h p hp hname => h ⟨p, hp, hname.symm⟩

theorem find?_append : (s ++ t).find? name = (t.find? name).or (s.find? name) := by
  rw [find?, List.reverse_append, List.lookup_append]
  rfl

theorem lookup_map_snd (m : Formula → Formula) (ps : List (String × Formula)) (name : String) :
    (ps.map fun p => (p.1, m p.2)).lookup name = (ps.lookup name).map m := by
  induction ps with
  | nil => rfl
  | cons p ps ih =>
    rw [List.map_cons, List.lookup_cons, List.lookup_cons, ih]
    cases name == p.1 <;> rfl

/-- The truth values that atoms get from their replacements. -/
def valuation (s : Substitution) (v : Valuation) : Valuation := fun name =>
  match s.find? name with
  | some g => g.eval v
  | none => v name

/-- The substitution that does first one and then another. -/
def andThen (s t : Substitution) : Substitution := t ++ s.map fun p => (p.1, p.2.subst t)

theorem find?_andThen :
    (s.andThen t).find? name = ((s.find? name).map (Formula.subst t)).or (t.find? name) := by
  have hmap : find? (s.map fun p => (p.1, p.2.subst t)) name =
      (s.find? name).map (Formula.subst t) := by
    rw [find?, ← List.map_reverse, lookup_map_snd, find?]
  rw [andThen, find?_append, hmap]

theorem apply_andThen : (s.andThen t).apply name = (s.apply name).subst t := by
  rw [apply, apply, find?_andThen]
  cases s.find? name with
  | none => rfl
  | some g => rfl

theorem eval_apply (v : Valuation) : (s.apply name).eval v = s.valuation v name := by
  rw [apply, valuation]
  cases s.find? name with
  | none => rfl
  | some g => rfl

end Substitution

/-! ## Formulas for atoms -/

namespace Formula

theorem eval_bind (v : Valuation) (image : String → Formula) (f : Formula) :
    (f.bind image).eval v = f.eval fun name => (image name).eval v := by
  induction f with
  | atom name => rfl
  | not f ih => rw [bind, eval, eval, ih]
  | junction j fs ih =>
    rw [bind_junction, eval_junction, eval_junction, List.map_map]
    exact congrArg j.eval (List.map_congr_left ih)
  | arrow a l r ihl ihr => rw [bind, eval, eval, ihl, ihr]

theorem bind_bind (first second : String → Formula) (f : Formula) :
    (f.bind first).bind second = f.bind fun name => (first name).bind second := by
  induction f with
  | atom name => rfl
  | not f ih => rw [bind, bind, bind, ih]
  | junction j fs ih =>
    rw [bind_junction, bind_junction, bind_junction, List.map_map]
    exact congrArg (junction j) (List.map_congr_left ih)
  | arrow a l r ihl ihr => rw [bind, bind, bind, ihl, ihr]

theorem bind_eq_self {image : String → Formula} {f : Formula}
    (h : ∀ name ∈ f.occurrences, image name = .atom name) : f.bind image = f := by
  induction f with
  | atom name => exact h name (List.mem_singleton_self name)
  | not f ih => rw [bind, ih h]
  | junction j fs ih =>
    have hfs : fs.map (bind image) = fs := by
      refine (List.map_congr_left fun f hf => ih f hf fun name hname => h name ?_).trans
        (List.map_id fs)
      rw [occurrences_junction]
      exact List.mem_flatMap.2 ⟨f, hf, hname⟩
    rw [bind_junction, hfs]
  | arrow a l r ihl ihr =>
    rw [occurrences] at h
    rw [bind, ihl fun name hname => h name (List.mem_append_left _ hname),
      ihr fun name hname => h name (List.mem_append_right _ hname)]

/-! ## Substitutions -/

theorem eval_subst (v : Valuation) (s : Substitution) (f : Formula) :
    (f.subst s).eval v = f.eval (s.valuation v) := by
  rw [subst, eval_bind]
  exact congrArg f.eval (funext fun name => Substitution.eval_apply v)

theorem subst_subst (s t : Substitution) (f : Formula) :
    (f.subst s).subst t = f.subst (s.andThen t) := by
  rw [subst, subst, bind_bind, subst]
  exact congrArg f.bind (funext fun name => Substitution.apply_andThen.symm)

theorem subst_eq_self {s : Substitution} {f : Formula}
    (h : ∀ name ∈ f.atoms, name ∉ s.map Prod.fst) : f.subst s = f := by
  refine bind_eq_self fun name hname => ?_
  have hnone : s.find? name = none :=
    Substitution.find?_eq_none_iff.2 (h name (List.mem_eraseDups.2 hname))
  rw [Substitution.apply, hnone, Option.getD_none]

/-- **Substitution replaces all atoms at once and tells truth values exactly.**  Of the pairs for an
atom the last counts; a formula after the substitution is true where the formula itself is once each
replaced atom has the truth value of its replacement; one substitution after another is the single
one that lets the second change what the first puts in and has the second's replacements for all
other atoms; and a formula without replaced atoms stays. -/
theorem subst_simultaneous (s : Substitution) (f : Formula) :
    (∀ name g, s.find? name = some g ↔
      ∃ before after, s = before ++ (name, g) :: after ∧ ∀ p ∈ after, p.1 ≠ name) ∧
      (∀ v, (f.subst s).eval v = f.eval (s.valuation v)) ∧
      (∀ t, (f.subst s).subst t = f.subst (s.andThen t) ∧
        ∀ name, (s.andThen t).find? name = ((s.find? name).map (subst t)).or (t.find? name)) ∧
      ((∀ name ∈ f.atoms, name ∉ s.map Prod.fst) → f.subst s = f) := by
  refine ⟨fun name g => Substitution.find?_eq_some_iff, fun v => eval_subst v s f, fun t => ?_,
    subst_eq_self⟩
  exact ⟨subst_subst s t f, fun name => Substitution.find?_andThen⟩

/-- Two atoms change places, one of them within a replacement that has itself as an atom, and a
third one stays. -/
theorem subst_simultaneous_swap :
    let a := atom "a"; let b := atom "b"; let c := atom "c"
    let s : Substitution := [("a", c), ("b", a), ("a", .and [b, .not a])]
    let f := Formula.imply a (.not b)
    f.subst s = .imply (.and [b, .not a]) (.not a) ∧
      (∀ v, (f.subst s).eval v = f.eval (s.valuation v)) ∧
      (f.subst s).subst s = f.subst (s.andThen s) ∧
      (∀ name ∈ (Formula.or [c, .not c]).atoms, name ∉ s.map Prod.fst) ∧
      (Formula.or [c, .not c]).subst s = .or [c, .not c] := by
  intro a b c s f
  have hkept : ∀ name ∈ (Formula.or [c, .not c]).atoms, name ∉ s.map Prod.fst := by decide
  obtain ⟨-, heval, htwice, -⟩ := subst_simultaneous s f
  obtain ⟨-, -, -, hself⟩ := subst_simultaneous s (.or [c, .not c])
  exact ⟨by decide, heval, (htwice s).1, hkept, hself hkept⟩

end Formula

end DefaultLogic
