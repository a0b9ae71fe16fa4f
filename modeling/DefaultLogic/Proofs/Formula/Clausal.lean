import DefaultLogic.Formula.Clausal
import DefaultLogic.Formula.Semantics

/-!
# Clauses keep the meaning of a formula

A list of signed atoms is read as a disjunction and a list of such lists as a conjunction.

* `holdAll_appendEach`, `holdAll_disjoin`: distribution writes a disjunction.
* `holdAll_signedClauses`: **the clauses of a formula hold where the formula does**, and those of
  its negation where it does not.
* `mem_occurrences_of_mem_signedClauses`: clauses name atoms of the formula only.
* `IsConjunctive`: conjunctions of disjunctions of literals.
* `clauses_cnf`: **a formula holds where all its clauses do, and where its conjunctive normal form
  does.**
-/

namespace DefaultLogic

/-! ## Signed atoms -/

def SignedAtom.holds (v : Valuation) (a : SignedAtom) : Bool := v a.1 == a.2

/-- Whether each list has a signed atom that holds. -/
def holdAll (v : Valuation) (cs : List (List SignedAtom)) : Bool :=
  cs.all fun c => c.any (SignedAtom.holds v)

variable (v : Valuation)

@[simp] theorem holdAll_nil : holdAll v [] = true := rfl

@[simp] theorem holdAll_append (cs ds : List (List SignedAtom)) :
    holdAll v (cs ++ ds) = (holdAll v cs && holdAll v ds) := by
  simp [holdAll]

@[simp] theorem holdAll_flatten (css : List (List (List SignedAtom))) :
    holdAll v css.flatten = css.all (holdAll v) := by
  induction css with
  | nil => rfl
  | cons cs css ih => rw [List.flatten_cons, holdAll_append, ih, List.all_cons]

theorem holdAll_map_append (c : List SignedAtom) (ds : List (List SignedAtom)) :
    holdAll v (ds.map (c ++ ·)) = (c.any (SignedAtom.holds v) || holdAll v ds) := by
  induction ds with
  | nil => simp
  | cons d ds ih =>
    have hd : holdAll v ((c ++ d) :: ds.map (c ++ ·)) =
        ((c.any (SignedAtom.holds v) || d.any (SignedAtom.holds v)) &&
          holdAll v (ds.map (c ++ ·))) := by
      rw [← List.any_append]
      rfl
    rw [List.map_cons, hd, ih, ← Bool.or_and_distrib_left]
    rfl

theorem holdAll_appendEach (cs ds : List (List SignedAtom)) :
    holdAll v (appendEach cs ds) = (holdAll v cs || holdAll v ds) := by
  induction cs with
  | nil => rfl
  | cons c cs ih =>
    have hc : appendEach (c :: cs) ds = ds.map (c ++ ·) ++ appendEach cs ds := rfl
    rw [hc, holdAll_append, holdAll_map_append, ih, ← Bool.or_and_distrib_right]
    rfl

/-- Distribution writes the disjunction of its operands. -/
@[simp] theorem holdAll_disjoin (css : List (List (List SignedAtom))) :
    holdAll v (disjoin css) = css.any (holdAll v) := by
  induction css with
  | nil => rfl
  | cons cs css ih =>
    have hcs : disjoin (cs :: css) = appendEach cs (disjoin css) := rfl
    rw [hcs, holdAll_appendEach, ih, List.any_cons]

theorem holdAll_clauses (j : Junction) (css : List (List (List SignedAtom))) :
    holdAll v (j.clauses css) = j.eval (css.map (holdAll v)) := by
  cases j with
  | and => simp [Junction.clauses, Junction.eval]
  | or => simp [Junction.clauses, Junction.eval]

/-! ## Formulas -/

/-- De Morgan's laws. -/
theorem Junction.eval_dual (j : Junction) (bs : List Bool) :
    j.dual.eval (bs.map not) = !j.eval bs := by
  cases j with
  | and =>
    show (bs.map not).any id = !bs.all id
    rw [List.any_map, List.not_all_eq_any_not]
    rfl
  | or =>
    show (bs.map not).all id = !bs.any id
    rw [List.all_map, List.not_any_eq_all_not]
    rfl

/-- The operands of a junction with their sign: a negative sign takes the dual junction. -/
theorem Junction.eval_signed (j : Junction) (positive : Bool) (bs : List Bool) :
    (if positive then j else j.dual).eval (bs.map (· == positive)) = (j.eval bs == positive) := by
  cases positive with
  | true => simp
  | false =>
    have hnot : bs.map (· == false) = bs.map not :=
      List.map_congr_left fun b _ => by cases b <;> rfl
    rw [hnot, if_neg Bool.false_ne_true, Junction.eval_dual]
    cases j.eval bs <;> rfl

namespace Formula

/-- **The clauses of a formula hold exactly where it does**, those of its negation where it does
not. -/
theorem holdAll_signedClauses (positive : Bool) (f : Formula) :
    holdAll v (f.signedClauses positive) = (f.eval v == positive) := by
  induction f generalizing positive with
  | atom name => simp [signedClauses, holdAll, SignedAtom.holds, eval]
  | not f ih =>
    rw [signedClauses, ih, eval]
    cases f.eval v <;> cases positive <;> rfl
  | junction j fs ih =>
    have hfs : (fs.map (signedClauses positive)).map (holdAll v) =
        (fs.map (eval v)).map (· == positive) := by
      rw [List.map_map, List.map_map]
      exact List.map_congr_left fun f hf => ih f hf positive
    rw [signedClauses_junction, holdAll_clauses, hfs, Junction.eval_signed, eval_junction]
  | arrow a l r ihl ihr =>
    cases a with
    | equivalence =>
      cases positive <;> simp only [signedClauses, eval, Arrow.eval, holdAll_append,
        holdAll_disjoin, List.any_cons, List.any_nil, ihl, ihr, if_true, if_false,
        Bool.false_eq_true] <;>
        cases l.eval v <;> cases r.eval v <;> rfl
    | _ =>
      rw [signedClauses, holdAll_clauses, List.map_cons, List.map_cons, List.map_nil, ihl, ihr,
        eval]
      · cases positive <;> cases l.eval v <;> cases r.eval v <;> rfl
      · intro h
        cases h

theorem holdAll_clauses_eq (f : Formula) : holdAll v f.clauses = f.eval v := by
  rw [clauses, holdAll_signedClauses]
  simp

/-! ## Atoms of the clauses -/

theorem mem_of_mem_disjoin {css : List (List (List SignedAtom))} {c : List SignedAtom}
    {a : SignedAtom} (hc : c ∈ disjoin css) (ha : a ∈ c) : ∃ cs ∈ css, ∃ d ∈ cs, a ∈ d := by
  induction css generalizing c with
  | nil =>
    obtain rfl : c = [] := List.mem_singleton.1 hc
    cases ha
  | cons cs css ih =>
    obtain ⟨d, hd, hcd⟩ := List.mem_flatMap.1 (show c ∈ appendEach cs (disjoin css) from hc)
    obtain ⟨e, he, rfl⟩ := List.mem_map.1 hcd
    rcases List.mem_append.1 ha with had | hae
    · exact ⟨cs, List.mem_cons_self, d, hd, had⟩
    · obtain ⟨ds, hds, d', hd', had'⟩ := ih he hae
      exact ⟨ds, List.mem_cons_of_mem _ hds, d', hd', had'⟩

theorem mem_of_mem_junction_clauses {j : Junction} {css : List (List (List SignedAtom))}
    {c : List SignedAtom} {a : SignedAtom} (hc : c ∈ j.clauses css) (ha : a ∈ c) :
    ∃ cs ∈ css, ∃ d ∈ cs, a ∈ d := by
  cases j with
  | and =>
    obtain ⟨cs, hcs, hc⟩ := List.mem_flatten.1 (show c ∈ css.flatten from hc)
    exact ⟨cs, hcs, c, hc, ha⟩
  | or => exact mem_of_mem_disjoin hc ha

theorem mem_occurrences_of_mem_signedClauses {f : Formula} {positive : Bool} {c : List SignedAtom}
    {a : SignedAtom} (hc : c ∈ f.signedClauses positive) (ha : a ∈ c) : a.1 ∈ f.occurrences := by
  induction f generalizing positive c with
  | atom name =>
    obtain rfl : c = [(name, positive)] := List.mem_singleton.1 hc
    obtain rfl : a = (name, positive) := List.mem_singleton.1 ha
    exact List.mem_singleton.2 rfl
  | not f ih => exact ih hc ha
  | junction j fs ih =>
    rw [signedClauses_junction] at hc
    obtain ⟨cs, hcs, d, hd, had⟩ := mem_of_mem_junction_clauses hc ha
    obtain ⟨f, hf, rfl⟩ := List.mem_map.1 hcs
    rw [occurrences_junction]
    exact List.mem_flatMap.2 ⟨f, hf, ih f hf hd had⟩
  | arrow b l r ihl ihr =>
    -- Every list that is joined is one of an operand, with one sign or the other.
    have operand :
        (∃ s, ∃ d ∈ l.signedClauses s, a ∈ d) ∨ (∃ s, ∃ d ∈ r.signedClauses s, a ∈ d) := by
      cases b with
      | equivalence =>
        cases positive with
        | true =>
          rcases List.mem_append.1 hc with hc | hc <;>
            obtain ⟨cs, hcs, d, hd, had⟩ := mem_of_mem_disjoin hc ha <;>
            simp only [List.mem_cons, List.not_mem_nil, or_false] at hcs <;>
            rcases hcs with rfl | rfl
          · exact .inl ⟨_, d, hd, had⟩
          · exact .inr ⟨_, d, hd, had⟩
          · exact .inr ⟨_, d, hd, had⟩
          · exact .inl ⟨_, d, hd, had⟩
        | false =>
          obtain ⟨cs, hcs, d, hd, had⟩ := mem_of_mem_disjoin hc ha
          simp only [List.mem_cons, List.not_mem_nil, or_false] at hcs
          rcases hcs with rfl | rfl <;> rcases List.mem_append.1 hd with hd | hd
          · exact .inl ⟨_, d, hd, had⟩
          · exact .inr ⟨_, d, hd, had⟩
          · exact .inr ⟨_, d, hd, had⟩
          · exact .inl ⟨_, d, hd, had⟩
      | _ =>
        obtain ⟨cs, hcs, d, hd, had⟩ := mem_of_mem_junction_clauses hc ha
        simp only [List.mem_cons, List.not_mem_nil, or_false] at hcs
        rcases hcs with rfl | rfl
        · exact .inl ⟨_, d, hd, had⟩
        · exact .inr ⟨_, d, hd, had⟩
    rw [occurrences]
    rcases operand with ⟨s, d, hd, had⟩ | ⟨s, d, hd, had⟩
    · exact List.mem_append_left _ (ihl hd had)
    · exact List.mem_append_right _ (ihr hd had)

/-! ## Conjunctive normal forms -/

theorem holdAll_eq_true {cs : List (List SignedAtom)} :
    holdAll v cs = true ↔ ∀ c ∈ cs, ∃ a ∈ c, v a.1 = a.2 := by
  simp [holdAll, SignedAtom.holds]

theorem eval_literal (a : SignedAtom) : (literal a.1 a.2).eval v = a.holds v := by
  obtain ⟨name, positive⟩ := a
  cases positive with
  | true => exact (beq_true (v name)).symm
  | false => exact (beq_false (v name)).symm

theorem isLiteral_literal (a : SignedAtom) : (literal a.1 a.2).isLiteral = true := by
  obtain ⟨name, positive⟩ := a
  cases positive <;> rfl

theorem eval_or_literals (c : List SignedAtom) :
    (Formula.or (c.map fun a => literal a.1 a.2)).eval v = c.any (SignedAtom.holds v) := by
  rw [eval_junction, List.map_map]
  show ((c.map _).any id) = _
  rw [List.any_map]
  exact List.any_congr rfl fun a => eval_literal v a

theorem eval_cnf (f : Formula) : f.cnf.eval v = f.eval v := by
  have hcnf : f.cnf.eval v = (f.clauses.map fun c => c.any (SignedAtom.holds v)).all id := by
    rw [cnf, eval_junction, List.map_map]
    exact congrArg (List.all · id) (List.map_congr_left fun c _ => eval_or_literals v c)
  rw [hcnf, List.all_map, ← holdAll_clauses_eq v f]
  rfl

/-- Whether a formula is a conjunction of disjunctions of literals, any number of them. -/
def IsConjunctive (f : Formula) : Prop :=
  ∃ gss : List (List Formula), f = .and (gss.map .or) ∧ ∀ gs ∈ gss, ∀ g ∈ gs, g.isLiteral = true

theorem isConjunctive_cnf (f : Formula) : f.cnf.IsConjunctive := by
  refine ⟨f.clauses.map fun c => c.map fun a => literal a.1 a.2, ?_, ?_⟩
  · rw [cnf, List.map_map]
    rfl
  · exact List.forall_mem_map.2 fun c _ => List.forall_mem_map.2 fun a _ => isLiteral_literal a

/-- **The conjunctive normal form keeps the meaning.**  A formula holds exactly where each of its
clauses has a signed atom that holds, and where its conjunctive normal form does.  Its clauses name
atoms of the formula only, and the normal form is a conjunction of disjunctions of literals. -/
theorem clauses_cnf (f : Formula) :
    (∀ v : Valuation,
      (f.eval v = true ↔ ∀ c ∈ f.clauses, ∃ a ∈ c, v a.1 = a.2) ∧
        (f.eval v = true ↔ f.cnf.eval v = true)) ∧
      (∀ c ∈ f.clauses, ∀ a ∈ c, a.1 ∈ f.atoms) ∧ f.cnf.IsConjunctive := by
  refine ⟨fun v => ⟨?_, ?_⟩, fun c hc a ha => ?_, f.isConjunctive_cnf⟩
  · rw [← holdAll_eq_true, holdAll_clauses_eq]
  · rw [eval_cnf]
  · exact List.mem_eraseDups.2 (mem_occurrences_of_mem_signedClauses hc ha)

/-- An empty conjunction has no clause, and its negation the empty one. -/
example : (Formula.not (.equiv (.and []) (.atom "a"))).cnf =
    .and [.or [.not (.atom "a"), .atom "a"], .or [.not (.atom "a")]] := by
  decide

end Formula

end DefaultLogic
