import DefaultLogic.Sat.Search
import DefaultLogic.Sat.Learning
import DefaultLogic.Sat.Parity
import DefaultLogic.Sat.Pigeonhole

/-!
# Solvers

An engine looks for values of the variables, and a solver makes a model of them.  A solver decides
when it always answers, and rightly; an engine is correct when it always answers and its values
satisfy the clauses.  The engine at hand learns; where that takes long, it looks for parities and
pigeonholes, and behind it all is an exhaustive search.  It is correct.
-/

namespace DefaultLogic.Sat

inductive Verdict where
  | sat (model : List Literal)
  | unsat
  | unknown
  deriving DecidableEq

abbrev Solver := List Clause → Verdict

/-- What an engine finds: how many variables it knows and the values it has for them, or nothing. -/
inductive Finding where
  | values (count : Nat) (value? : Nat → Option Bool)
  | unsat
  | unknown

abbrev Engine := List Clause → Finding

/-- One literal for each variable, in order; a variable without a value counts as false. -/
def buildModel (count : Nat) (value? : Nat → Option Bool) : List Literal :=
  (List.range count).map fun i => ⟨i, value? i == some true⟩

def Finding.verdict : Finding → Verdict
  | .values count value? => .sat (buildModel count value?)
  | .unsat => .unsat
  | .unknown => .unknown

def Engine.solver (engine : Engine) : Solver := fun cs => (engine cs).verdict

/-- The number of variables up to the largest that occurs. -/
def variableCount (cs : List Clause) : Nat :=
  cs.foldl (fun n c => c.literals.foldl (fun n l => max n (l.index + 1)) n) 0

/-- The engine that only searches exhaustively; variables left open are false. -/
def exhaustive : Engine := fun cs =>
  match search (cs.map Clause.literals) with
  | none => .unsat
  | some ls => .values (variableCount cs) fun i => some (ls.contains ⟨i, true⟩)

/-- The decisions and conflicts after which a search counts as hard. -/
def shortEffort : Nat := 2000

/-- More decisions and conflicts than any search will live to see. -/
def longEffort : Nat := 1000000000000

/-- Searches with each of the methods until one decides. -/
def searchAll (cs : List Clause) (count : Nat) : Outcome cs :=
  (((Learner.search cs count shortEffort).orElse fun _ => Equation.search cs).orElse fun _ =>
    Crowd.search cs count).orElse fun _ => Learner.search cs count longEffort

/-- The engine that learns, with an eye for parities and pigeonholes.  Should it give up, the search
is exhaustive. -/
def learning : Engine := fun cs =>
  let count := variableCount cs
  match searchAll cs count with
  | .satisfied a _ => .values count fun i => some (a i)
  | .refuted _ => .unsat
  | .undecided => exhaustive cs

def solve : Solver := learning.solver

def silent : Solver := fun _ => .unknown

/-! ## Correctness -/

/-- Whether a solver always answers, and correctly. -/
def Solver.Decides (solver : Solver) : Prop :=
  ∀ cs, match solver cs with
    | .sat _ => Satisfiable cs
    | .unsat => ¬Satisfiable cs
    | .unknown => False

/-- Whether each clause has a literal of the model that a solver finds. -/
def Solver.FindsModels (solver : Solver) : Prop :=
  ∀ cs model, solver cs = .sat model → ∀ c ∈ cs, ∃ l ∈ model, l ∈ c.literals

/-- Whether an engine always answers, with values that satisfy the clauses for exactly the variables
up to the largest that occurs if there are such values. -/
def Engine.IsCorrect (engine : Engine) : Prop :=
  ∀ cs, match engine cs with
    | .values count value? =>
      count = variableCount cs ∧ ∀ c ∈ cs, c.holds (fun i => value? i == some true) = true
    | .unsat => ¬Satisfiable cs
    | .unknown => False

theorem foldl_max_le_iff {ls : List Literal} {m n : Nat} :
    ls.foldl (fun n l => max n (l.index + 1)) m ≤ n ↔ m ≤ n ∧ ∀ l ∈ ls, l.index < n := by
  induction ls generalizing m with
  | nil => simp
  | cons l ls ih =>
    rw [List.foldl_cons, ih, Nat.max_le, Nat.succ_le_iff, List.forall_mem_cons, and_assoc]

/-- **The number of variables is the least bound of those that occur.** -/
theorem variableCount_le_iff {cs : List Clause} {n : Nat} :
    variableCount cs ≤ n ↔ ∀ c ∈ cs, ∀ l ∈ c.literals, l.index < n := by
  have hfold : ∀ m,
      cs.foldl (fun n c => c.literals.foldl (fun n l => max n (l.index + 1)) n) m ≤ n ↔
        m ≤ n ∧ ∀ c ∈ cs, ∀ l ∈ c.literals, l.index < n := by
    induction cs with
    | nil => simp
    | cons c cs ih =>
      intro m
      rw [List.foldl_cons, ih, foldl_max_le_iff, List.forall_mem_cons, and_assoc]
  exact (hfold 0).trans (and_iff_right n.zero_le)

theorem lt_variableCount {cs : List Clause} {c : Clause} {l : Literal} (hc : c ∈ cs)
    (hl : l ∈ c.literals) : l.index < variableCount cs :=
  variableCount_le_iff.1 (Nat.le_refl _) c hc l hl

namespace Engine

variable {engine : Engine}

theorem IsCorrect.decides (h : engine.IsCorrect) : engine.solver.Decides := by
  intro cs
  have hcs := h cs
  rw [solver]
  cases he : engine cs with
  | values count value? =>
    rw [he] at hcs
    exact ⟨_, hcs.2⟩
  | unsat =>
    rw [he] at hcs
    exact hcs
  | unknown =>
    rw [he] at hcs
    exact hcs

/-- A model that is found has the values of the engine for the variables up to the largest. -/
theorem IsCorrect.of_eq_sat (h : engine.IsCorrect) {cs : List Clause} {model : List Literal}
    (hmodel : engine.solver cs = .sat model) :
    model.map Literal.index = List.range (variableCount cs) ∧
      ∀ c ∈ cs, ∃ l ∈ model, l ∈ c.literals := by
  have hcs := h cs
  rw [solver] at hmodel
  cases he : engine cs with
  | values count value? =>
    rw [he] at hcs hmodel
    obtain ⟨rfl, hholds⟩ := hcs
    obtain rfl := Verdict.sat.inj hmodel
    refine ⟨by simp [buildModel, Function.comp_def], fun c hc => ?_⟩
    obtain ⟨l, hl, hal⟩ := Clause.holds_iff.1 (hholds c hc)
    refine ⟨l, List.mem_map.2 ⟨l.index, List.mem_range.2 (lt_variableCount hc hl), ?_⟩, hl⟩
    have hvalue : (value? l.index == some true) = l.positive := eq_of_beq hal
    rw [hvalue]
  | unsat =>
    rw [he] at hmodel
    cases hmodel
  | unknown =>
    rw [he] at hmodel
    cases hmodel

theorem IsCorrect.findsModels (h : engine.IsCorrect) : engine.solver.FindsModels :=
  fun _ _ hmodel => (h.of_eq_sat hmodel).2

end Engine

theorem exhaustive_isCorrect : exhaustive.IsCorrect := fun cs => by
  rw [exhaustive]
  cases hs : search (cs.map Clause.literals) with
  | none =>
    rintro ⟨a, ha⟩
    refine not_meets_of_search hs a fun c hc => ?_
    obtain ⟨d, hd, rfl⟩ := List.mem_map.1 hc
    exact Clause.holds_iff.1 (ha d hd)
  | some ls =>
    refine ⟨rfl, fun c hc => Clause.holds_iff.2 ?_⟩
    have hf := found_of_search hs
    obtain ⟨l, hl, hls⟩ := hf.meets _ (List.mem_map_of_mem hc)
    refine ⟨l, hl, ?_⟩
    have := hf.consistent l hls
    rcases l with ⟨i, _ | _⟩ <;> simp_all [Literal.holds, Literal.negate]

theorem learning_isCorrect : learning.IsCorrect := fun cs => by
  rw [learning]
  cases searchAll cs (variableCount cs) with
  | satisfied a h => exact ⟨rfl, by simpa using h⟩
  | refuted h => exact h
  | undecided => exact exhaustive_isCorrect cs

theorem solve_decides : solve.Decides := learning_isCorrect.decides

theorem solve_findsModels : solve.FindsModels := learning_isCorrect.findsModels

end DefaultLogic.Sat
