import DefaultLogic.Formula.NormalForm
import DefaultLogic.Proofs.Formula.Clausal

/-!
# Truth of normal forms

A normal form is made of literals, so its truth value depends on theirs only.

* `eval_push_congr`: **two normal forms of a formula, each under a valuation of its own, agree when
  their literals do.**
* `eval_push_of_agree`: so it depends only on the atoms and on the names of their negations.
* `eval_push`: **a normal form is true where the formula is, if its literals are.**
* `eval_pnnf_of_disjoint`: so it is for a formula without inconsistent atoms.
* `eval_push_of_renames`, `eval_pnnf_of_subset`: **whether the negation of an atom has a name of its
  own makes no difference where the name has the opposite value of the atom.**
* `negatedName_injective`, `isPlain_iff`: the names that stand for negations.
-/

namespace DefaultLogic

/-! ## Names -/

theorem negatedName_injective {a b : String} (h : negatedName a = negatedName b) : a = b := by
  have hlist := congrArg String.toList h
  rw [negatedName, negatedName, String.toList_append, String.toList_append] at hlist
  exact String.toList_inj.1 (List.append_cancel_right hlist)

/-- A plain name does not end like a name that stands for a negation. -/
def IsPlain (name : String) : Prop := ∀ base, name ≠ negatedName base

theorem isPlain_iff {name : String} : IsPlain name ↔ ¬"^-".toList <:+ name.toList := by
  constructor
  · rintro h ⟨base, hbase⟩
    refine h (String.ofList base) (String.toList_inj.1 ?_)
    rw [negatedName, String.toList_append, String.toList_ofList, hbase]
  · rintro h base rfl
    refine h ⟨base.toList, ?_⟩
    rw [negatedName, String.toList_append]

instance (name : String) : Decidable (IsPlain name) := decidable_of_iff _ isPlain_iff.symm

theorem isPlain_of_getLast? {name : String} (h : name.toList.getLast? ≠ some '-') :
    IsPlain name := by
  rintro base rfl
  refine h ?_
  rw [negatedName, String.toList_append, List.getLast?_append]
  rfl

/-! ## Literals -/

theorem NegationStyle.renames_paraconsistent {inconsistent : List String} {a : String} :
    (paraconsistent inconsistent).renames a = true ↔ a ∈ inconsistent := List.contains_iff_mem

theorem NegationStyle.not_renames_paraconsistent {inconsistent : List String} {a : String} :
    (paraconsistent inconsistent).renames a = false ↔ a ∉ inconsistent := by
  rw [← renames_paraconsistent, Bool.not_eq_true]

namespace Formula

theorem eval_literal_false (v : Valuation) (inconsistent : List String) (a : String) :
    ((NegationStyle.paraconsistent inconsistent).literal a false).eval v =
      if a ∈ inconsistent then v (negatedName a) else !v a := by
  show eval v (if inconsistent.contains a then .atom (negatedName a) else .not (.atom a)) = _
  by_cases ha : a ∈ inconsistent
  · rw [if_pos ha, if_pos (List.contains_iff_mem.2 ha)]
    rfl
  · rw [if_neg ha, if_neg (mt List.contains_iff_mem.1 ha)]
    rfl

/-! ## Arrows -/

end Formula

/-- The sign with which the left operand of an arrow is pushed when the right one has the given
sign.  A material implication negates it; an internal one leaves its negation where it is. -/
def Arrow.leftSign (positive : Bool) : Arrow → Bool
  | .material => !positive
  | .internal | .equivalence => true

namespace Formula

theorem eval_push_arrow_congr {s s' : NegationStyle} (hs : s.keepsInternal = s'.keepsInternal)
    {v w : Valuation} {a : Arrow} {l l' r r' : Formula} {positive : Bool}
    (hl : (l.push s (a.leftSign positive)).eval v = (l'.push s' (a.leftSign positive)).eval w)
    (hr : (r.push s positive).eval v = (r'.push s' positive).eval w) :
    ((arrow a l r).push s positive).eval v = ((arrow a l' r').push s' positive).eval w := by
  cases a with
  | material =>
    rw [Arrow.leftSign] at hl
    rw [push, push, eval_junction, eval_junction]
    simp only [List.map_cons, List.map_nil, hl, hr]
  | internal =>
    rw [Arrow.leftSign] at hl
    cases positive with
    | false =>
      rw [push, push, if_pos Bool.not_false, if_pos Bool.not_false, eval_junction, eval_junction]
      simp only [List.map_cons, List.map_nil, hl, hr]
    | true =>
      have hpositive : ¬(!true) = true := by decide
      rw [push, push, if_neg hpositive, if_neg hpositive, hs]
      split
      · simp only [eval, hl, hr]
      · rw [eval_junction, eval_junction]
        simp only [List.map_cons, List.map_nil, eval, hl, hr]
  | equivalence =>
    rw [Arrow.leftSign] at hl
    rw [push, push, eval, eval, hl, hr]

/-! ## Formulas -/

/-- **Two normal forms of a formula agree when their literals do.** -/
theorem eval_push_congr {s s' : NegationStyle} (hs : s.keepsInternal = s'.keepsInternal)
    {v w : Valuation} {f : Formula}
    (h : ∀ a ∈ f.occurrences, ∀ positive,
      (s.literal a positive).eval v = (s'.literal a positive).eval w) (positive : Bool) :
    (f.push s positive).eval v = (f.push s' positive).eval w := by
  induction f generalizing positive with
  | atom name =>
    rw [push, push]
    exact h name (List.mem_singleton.2 rfl) positive
  | not f ih =>
    rw [push, push]
    exact ih h !positive
  | junction j fs ih =>
    rw [push_junction, push_junction, eval_junction, eval_junction, List.map_map, List.map_map]
    refine congrArg _ (List.map_congr_left fun f hf => ih f hf (fun a ha => h a ?_) positive)
    rw [occurrences_junction]
    exact List.mem_flatMap.2 ⟨f, hf, ha⟩
  | arrow a l r ihl ihr =>
    exact eval_push_arrow_congr hs (ihl (fun b hb => h b (List.mem_append_left _ hb)) _)
      (ihr (fun b hb => h b (List.mem_append_right _ hb)) positive)

/-- **A normal form is true where the formula is**, and that of its negation where it is not, if its
literals are. -/
theorem eval_push {s : NegationStyle} {v : Valuation} {f : Formula}
    (h : ∀ a ∈ f.occurrences, ∀ positive, (s.literal a positive).eval v = (v a == positive))
    (positive : Bool) : (f.push s positive).eval v = (f.eval v == positive) := by
  induction f generalizing positive with
  | atom name =>
    rw [push, eval]
    exact h name (List.mem_singleton.2 rfl) positive
  | not f ih =>
    rw [push, eval, ih h]
    cases f.eval v <;> cases positive <;> rfl
  | junction j fs ih =>
    have hfs : (fs.map (push s positive)).map (eval v) =
        (fs.map (eval v)).map (· == positive) := by
      rw [List.map_map, List.map_map]
      refine List.map_congr_left fun f hf => ih f hf (fun a ha => h a ?_) positive
      rw [occurrences_junction]
      exact List.mem_flatMap.2 ⟨f, hf, ha⟩
    rw [push_junction, eval_junction, hfs, Junction.eval_signed, eval_junction]
  | arrow a l r ihl ihr =>
    have hl := ihl fun b hb => h b (List.mem_append_left _ hb)
    have hr := ihr fun b hb => h b (List.mem_append_right _ hb)
    cases a with
    | material =>
      rw [push, eval_junction, List.map_cons, List.map_cons, List.map_nil, hl, hr, eval]
      cases positive <;> cases l.eval v <;> cases r.eval v <;> rfl
    | internal =>
      rw [push, eval]
      cases positive with
      | false =>
        rw [if_pos Bool.not_false, eval_junction, List.map_cons, List.map_cons, List.map_nil, hl,
          hr]
        cases l.eval v <;> cases r.eval v <;> rfl
      | true =>
        rw [if_neg (by decide)]
        split
        · rw [eval, hl, hr]
          cases l.eval v <;> cases r.eval v <;> rfl
        · rw [eval_junction, List.map_cons, List.map_cons, List.map_nil, eval, hl, hr]
          cases l.eval v <;> cases r.eval v <;> rfl
    | equivalence =>
      rw [push, eval, eval, hl, hr]
      cases positive <;> cases l.eval v <;> cases r.eval v <;> rfl

/-- **The truth of a normal form depends only on the atoms that occur and on the names of their
negations.** -/
theorem eval_push_of_agree (s : NegationStyle) {v w : Valuation} {f : Formula}
    (hatom : ∀ a ∈ f.occurrences, v a = w a)
    (hnegation : ∀ a ∈ f.occurrences, v (negatedName a) = w (negatedName a)) (positive : Bool) :
    (f.push s positive).eval v = (f.push s positive).eval w := by
  refine eval_push_congr rfl (fun a ha positive => ?_) positive
  cases positive with
  | true => exact hatom a ha
  | false =>
    rw [NegationStyle.literal, if_neg Bool.false_ne_true]
    split
    · exact hnegation a ha
    · exact congrArg (!·) (hatom a ha)

theorem eval_pnnf_of_disjoint {inconsistent : List String} {f : Formula}
    (h : ∀ a ∈ f.occurrences, a ∉ inconsistent) (v : Valuation) :
    (f.pnnf inconsistent).eval v = f.eval v := by
  have hliterals : ∀ a ∈ f.occurrences, ∀ positive,
      ((NegationStyle.paraconsistent inconsistent).literal a positive).eval v =
        (v a == positive) := by
    intro a ha positive
    cases positive with
    | true => exact (beq_true (v a)).symm
    | false =>
      rw [eval_literal_false, if_neg (h a ha)]
      exact (beq_false (v a)).symm
  rw [pnnf, eval_push hliterals, beq_true]

theorem eval_pnnf_nil (v : Valuation) (f : Formula) : (f.pnnf []).eval v = f.eval v :=
  eval_pnnf_of_disjoint (fun _ _ => List.not_mem_nil) v

theorem eval_nnf (v : Valuation) (f : Formula) : f.nnf.eval v = f.eval v := by
  have hliterals : ∀ a ∈ f.occurrences, ∀ positive,
      (NegationStyle.classical.literal a positive).eval v = (v a == positive) := by
    intro a _ positive
    cases positive with
    | true => exact (beq_true (v a)).symm
    | false => exact (beq_false (v a)).symm
  rw [nnf, eval_push hliterals, beq_true]

/-! ## More inconsistent atoms -/

theorem eval_literal_of_renames {s s' : NegationStyle} {v : Valuation} {a : String}
    (hrenames : s.renames a = true → s'.renames a = true)
    (hclassical : s'.renames a = true → s.renames a = false → v (negatedName a) = !v a)
    (positive : Bool) : (s'.literal a positive).eval v = (s.literal a positive).eval v := by
  cases positive with
  | true => rfl
  | false =>
    rw [NegationStyle.literal, NegationStyle.literal, if_neg Bool.false_ne_true,
      if_neg Bool.false_ne_true]
    cases hs : s.renames a with
    | true => rw [if_pos (hrenames hs), if_pos rfl]
    | false =>
      rw [if_neg Bool.false_ne_true]
      split
      · next hs' => exact hclassical hs' hs
      · rfl

/-- **Renaming the negations of more atoms keeps the truth value** where the new names have the
opposite value of their atoms. -/
theorem eval_push_of_renames (s s' : NegationStyle) (hs : s.keepsInternal = s'.keepsInternal)
    {v : Valuation} {f : Formula} (hrenames : ∀ a, s.renames a = true → s'.renames a = true)
    (hclassical : ∀ a ∈ f.occurrences, s'.renames a = true → s.renames a = false →
      v (negatedName a) = !v a) (positive : Bool) :
    (f.push s' positive).eval v = (f.push s positive).eval v :=
  eval_push_congr hs.symm
    (fun a ha => eval_literal_of_renames (hrenames a) (hclassical a ha)) positive

/-- **The paraconsistent normal form under more inconsistent atoms has the truth value of the one
under fewer** where the further atoms of the formula are classical, be the atoms all there are or
some.  Without inconsistent atoms it has the truth value of the formula, as has the classical normal
form. -/
theorem eval_pnnf_of_subset (f : Formula) :
    (∀ (S S' : List String) (v : Valuation), S ⊆ S' →
      (∀ a ∈ f.occurrences, a ∈ S' → a ∉ S → v (negatedName a) = !v a) →
        (f.pnnf S').eval v = (f.pnnf S).eval v) ∧
      (∀ (S : List String) (v : Valuation),
        (∀ a ∈ f.occurrences, a ∉ S → v (negatedName a) = !v a) →
          f.fullPnnf.eval v = (f.pnnf S).eval v) ∧
      ∀ v : Valuation, (f.pnnf []).eval v = f.eval v ∧ f.nnf.eval v = f.eval v := by
  have hmem : ∀ {S : List String} {a : String}, S.contains a = true ↔ a ∈ S :=
    List.contains_iff_mem
  have hnot : ∀ {S : List String} {a : String}, S.contains a = false → a ∉ S := by
    intro S a hfalse ha
    rw [hmem.2 ha] at hfalse
    cases hfalse
  refine ⟨fun S S' v hsub hclassical => ?_, fun S v hclassical => ?_, fun v => ?_⟩
  · exact eval_push_of_renames (.paraconsistent S) (.paraconsistent S') rfl
      (fun a ha => hmem.2 (hsub (hmem.1 ha)))
      (fun a ha hS' hS => hclassical a ha (hmem.1 hS') (hnot hS)) true
  · exact eval_push_of_renames (.paraconsistent S) .full rfl
      (fun _ _ => rfl) (fun a ha _ hS => hclassical a ha (hnot hS)) true
  · exact ⟨eval_pnnf_nil v f, eval_nnf v f⟩

/-- Where `a` and its negation are both true and `b` is classical, it does not matter whether `b` is
among the inconsistent atoms. -/
theorem eval_pnnf_of_subset_both :
    let f := Formula.implication (.imply (.atom "a") (.not (.atom "b")))
      (.not (.equiv (.atom "b") (.atom "a")))
    let v : Valuation := fun name => name = "a" || name = "a^-" || name = "b"
    (∀ a ∈ f.occurrences, a ∉ ["a"] → v (negatedName a) = !v a) ∧
      (f.pnnf ["a", "b"]).eval v = (f.pnnf ["a"]).eval v ∧
      f.fullPnnf.eval v = (f.pnnf ["a"]).eval v ∧
      (f.pnnf []).eval v = f.nnf.eval v := by
  intro f v
  have hclassical : ∀ a ∈ f.occurrences, a ∉ ["a"] → v (negatedName a) = !v a := by
    decide
  obtain ⟨hsubset, hfull, hnone⟩ := eval_pnnf_of_subset f
  refine ⟨hclassical, ?_, hfull ["a"] v hclassical, ?_⟩
  · exact hsubset ["a"] ["a", "b"] v (by decide) fun a ha _ => hclassical a ha
  · exact (hnone v).1.trans (hnone v).2.symm

end Formula

end DefaultLogic
