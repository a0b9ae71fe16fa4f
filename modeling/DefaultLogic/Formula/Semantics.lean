import DefaultLogic.Formula.Basic

/-!
# Truth values

A valuation gives a truth value to every atom.  The empty conjunction is true and the empty
disjunction false; both implications are read classically.
-/

namespace DefaultLogic

abbrev Valuation := String → Bool

def Junction.eval : Junction → List Bool → Bool
  | .and, bs => bs.all id
  | .or, bs => bs.any id

def Arrow.eval : Arrow → Bool → Bool → Bool
  | .material, b, c => !b || c
  | .internal, b, c => !b || c
  | .equivalence, b, c => b == c

namespace Formula

mutual

def eval (v : Valuation) : Formula → Bool
  | .atom name => v name
  | .not f => !f.eval v
  | .junction j fs => j.eval (evalEach v fs)
  | .arrow a l r => a.eval (l.eval v) (r.eval v)

private def evalEach (v : Valuation) : List Formula → List Bool
  | [] => []
  | f :: fs => f.eval v :: evalEach v fs

end

private theorem evalEach_eq_map (v : Valuation) (fs : List Formula) :
    evalEach v fs = fs.map (eval v) := by
  induction fs with
  | nil => rfl
  | cons f fs ih => simp [evalEach, ih]

@[simp] theorem eval_junction (v : Valuation) (j : Junction) (fs : List Formula) :
    (junction j fs).eval v = j.eval (fs.map (eval v)) := by
  simp [eval, evalEach_eq_map]

theorem eval_congr {v w : Valuation} {f : Formula} (h : ∀ a ∈ f.occurrences, v a = w a) :
    f.eval v = f.eval w := by
  induction f with
  | atom name => exact h name (by simp [occurrences])
  | not f ih => simp [eval, ih (by simpa [occurrences] using h)]
  | junction j fs ih =>
    rw [eval_junction, eval_junction]
    refine congrArg _ (List.map_congr_left fun f hf => ih f hf fun a ha => h a ?_)
    simpa using ⟨f, hf, ha⟩
  | arrow a l r ihl ihr =>
    simp only [occurrences, List.mem_append] at h
    rw [eval, eval, ihl fun b hb => h b (.inl hb), ihr fun b hb => h b (.inr hb)]

end Formula

end DefaultLogic
