import DefaultLogic.Sat.Outcome

/-!
# Parities

A parity fixes whether an odd or an even number of some variables are true.  A parity of `k`
variables takes as many clauses as there are wrong assignments of them, and it is hidden in clauses
that contain all of these.  The sum of two parities follows from them, so hidden parities are solved
like linear equations: either they sum up to a contradiction, or the variables without an equation
can be false and the others are determined.
-/

namespace DefaultLogic.Sat

/-- The sum of the values of some variables, where two true ones cancel out. -/
def sumOf (a : Assignment) (is : List Nat) : Bool := is.foldr (fun i b => a i ^^ b) false

structure Parity where
  /-- The variables, in increasing order. -/
  support : List Nat
  odd : Bool

namespace Parity

def holds (a : Assignment) (p : Parity) : Bool := sumOf a p.support == p.odd

/-! ## Sums -/

/-- The elements that only one of two ordered lists has. -/
def difference : List Nat → List Nat → List Nat
  | [], js => js
  | is, [] => is
  | i :: is, j :: js =>
    if i = j then difference is js
    else if i < j then i :: difference is (j :: js)
    else j :: difference (i :: is) js

theorem sumOf_difference (a : Assignment) (is js : List Nat) :
    sumOf a (difference is js) = (sumOf a is ^^ sumOf a js) := by
  fun_induction difference is js with
  | case1 => simp [sumOf]
  | case2 => simp [sumOf]
  | case3 is i js ih =>
    rw [ih]
    simp only [sumOf, List.foldr_cons]
    cases a i <;> simp
  | case4 i is j js _ _ ih =>
    simp only [sumOf, List.foldr_cons] at ih ⊢
    rw [ih, Bool.xor_assoc]
  | case5 i is j js _ _ ih =>
    simp only [sumOf, List.foldr_cons] at ih ⊢
    rw [ih]
    cases a i <;> cases a j <;> simp

def add (p q : Parity) : Parity := ⟨difference p.support q.support, p.odd ^^ q.odd⟩

theorem holds_add {a : Assignment} {p q : Parity} (hp : p.holds a = true) (hq : q.holds a = true) :
    (p.add q).holds a = true := by
  simp only [holds, add, beq_iff_eq, sumOf_difference] at *
  rw [hp, hq]

/-! ## Clauses -/

/-- The clauses that together say a parity: each excludes one wrong assignment. -/
def clauses : List Nat → Bool → List (List Literal)
  | [], odd => if odd then [[]] else []
  | i :: is, odd =>
    (clauses is (!odd)).map (⟨i, false⟩ :: ·) ++ (clauses is odd).map (⟨i, true⟩ :: ·)

theorem sumOf_of_clauses {a : Assignment} {is : List Nat} {odd : Bool}
    (h : ∀ c ∈ clauses is odd, ∃ l ∈ c, l.holds a = true) : sumOf a is = odd := by
  induction is generalizing odd with
  | nil => cases odd <;> simp [clauses, sumOf] at h ⊢
  | cons i is ih =>
    have step : ∀ b o : Bool, a i = !b →
        (∀ c ∈ clauses is o, ∃ l ∈ (⟨i, b⟩ : Literal) :: c, l.holds a = true) → sumOf a is = o := by
      refine fun b o hb hc => ih fun c hm => ?_
      obtain ⟨l, hl, hal⟩ := hc c hm
      rcases List.mem_cons.1 hl with rfl | hl
      · rw [Literal.holds, hb] at hal
        cases b <;> simp at hal
      · exact ⟨l, hl, hal⟩
    simp only [clauses, List.mem_append, List.mem_map] at h
    simp only [sumOf, List.foldr_cons] at step ⊢
    cases hi : a i with
    | true =>
      have := step false (!odd) hi fun c hc => h _ (.inl ⟨c, hc, rfl⟩)
      rw [this]
      cases odd <;> rfl
    | false =>
      have := step true odd hi fun c hc => h _ (.inr ⟨c, hc, rfl⟩)
      rw [this]
      cases odd <;> rfl

def isHidden (cs : List Clause) (p : Parity) : Bool :=
  (clauses p.support p.odd).all fun ls => cs.any (·.literals = ls)

theorem holds_of_isHidden {cs : List Clause} {p : Parity} (h : p.isHidden cs = true)
    {a : Assignment} (ha : ∀ c ∈ cs, c.holds a = true) : p.holds a = true := by
  refine beq_iff_eq.2 (sumOf_of_clauses fun ls hls => ?_)
  obtain ⟨c, hc, hcls⟩ := List.any_eq_true.1 (List.all_eq_true.1 h ls hls)
  rw [← of_decide_eq_true hcls]
  exact Clause.holds_iff.1 (ha c hc)

/-- The greatest number of variables of a parity that is looked for. -/
def widest : Nat := 8

/-- The parity that a clause may belong to.  Of the clauses of a parity, only one has no negative
literal after its first. -/
def candidate? (c : Clause) : Option Parity :=
  if c.literals.length ≤ widest && c.literals.tail.all (·.positive) then
    some ⟨c.literals.map Literal.index, c.literals.all (·.positive)⟩
  else none

end Parity

/-- A parity that follows from clauses. -/
abbrev Equation (cs : List Clause) :=
  { p : Parity // ∀ a : Assignment, (∀ c ∈ cs, c.holds a = true) → p.holds a = true }

namespace Equation

variable {cs : List Clause}

def add (p q : Equation cs) : Equation cs :=
  ⟨p.1.add q.1, fun a ha => Parity.holds_add (p.2 a ha) (q.2 a ha)⟩

def ofClause? (cs : List Clause) (c : Clause) : Option (Equation cs) :=
  match Parity.candidate? c with
  | none => none
  | some p =>
    if h : p.isHidden cs = true then some ⟨p, fun _ ha => Parity.holds_of_isHidden h ha⟩ else none

theorem not_satisfiable {p : Equation cs} (hv : p.1.support = []) (ho : p.1.odd = true) :
    ¬Satisfiable cs := by
  rintro ⟨a, ha⟩
  have := p.2 a ha
  simp [Parity.holds, hv, ho, sumOf] at this

/-! ## Elimination -/

/-- A variable and the equation that determines it. -/
abbrev Row (cs : List Clause) := Nat × Equation cs

/-- Removes the variables that rows determine. -/
def reduce (rows : List (Row cs)) (p : Equation cs) : Equation cs :=
  rows.foldl (fun p (i, q) => if p.1.support.contains i then p.add q else p) p

/-- Adds equations to rows, in which each determined variable is in a single row. -/
def solve : List (Row cs) → List (Equation cs) → Outcome cs
  | rows, [] =>
    .ofAssignment cs fun i =>
      match rows.lookup i with
      | some p => p.1.odd
      | none => false
  | rows, p :: ps =>
    let p := reduce rows p
    match hv : p.1.support with
    | [] => if ho : p.1.odd = true then .refuted (not_satisfiable hv ho) else solve rows ps
    | i :: _ => solve ((i, p) :: rows.map fun (j, q) => (j, reduce [(i, p)] q)) ps

def search (cs : List Clause) : Outcome cs :=
  match cs.filterMap (ofClause? cs) with
  | [] => .undecided
  | ps => solve [] ps

end Equation

end DefaultLogic.Sat
