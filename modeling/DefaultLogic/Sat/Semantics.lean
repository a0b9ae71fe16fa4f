import DefaultLogic.Sat.Clause

/-!
# Meaning of clauses

An assignment gives a truth value to every variable.  Literals follow from clauses when one of them
holds wherever the clauses do; so does the resolvent of lists that follow, and no assignment
satisfies clauses from which the empty list follows.
-/

namespace DefaultLogic.Sat

abbrev Assignment := Nat → Bool

def Literal.holds (a : Assignment) (l : Literal) : Bool := a l.index == l.positive

def Clause.holds (a : Assignment) (c : Clause) : Bool := c.literals.any (·.holds a)

def Satisfiable (cs : List Clause) : Prop := ∃ a : Assignment, ∀ c ∈ cs, c.holds a = true

def Follows (cs : List Clause) (ls : List Literal) : Prop :=
  ∀ a : Assignment, (∀ c ∈ cs, c.holds a = true) → ∃ l ∈ ls, l.holds a = true

theorem Literal.holds_negate (a : Assignment) (l : Literal) : l.negate.holds a = !l.holds a := by
  rcases l with ⟨i, b⟩
  cases h : a i <;> cases b <;> simp [Literal.holds, Literal.negate, h]

theorem Clause.holds_iff {a : Assignment} {c : Clause} :
    c.holds a = true ↔ ∃ l ∈ c.literals, l.holds a = true := List.any_eq_true

theorem not_satisfiable_of_follows {cs : List Clause} {ls : List Literal} (h : Follows cs ls)
    (hls : ls = []) : ¬Satisfiable cs := by
  rintro ⟨a, ha⟩
  obtain ⟨l, hl, -⟩ := h a ha
  simp [hls] at hl

/-- The literals of two ordered lists, in order and each once. -/
def union : List Literal → List Literal → List Literal
  | [], ms => ms
  | ls, [] => ls
  | l :: ls, m :: ms =>
    if l = m then l :: union ls ms
    else if l.key < m.key then l :: union ls (m :: ms)
    else m :: union (l :: ls) ms

theorem mem_union {x : Literal} {ls ms : List Literal} : x ∈ union ls ms ↔ x ∈ ls ∨ x ∈ ms := by
  fun_induction union ls ms <;> grind

/-- What is left of two lists when a literal is taken from the first and its negation from the
second. -/
def resolve (ls ms : List Literal) (l : Literal) : List Literal :=
  union (ls.filter (· ≠ l)) (ms.filter (· ≠ l.negate))

theorem Follows.of_mem {cs : List Clause} {c : Clause} (h : c ∈ cs) : Follows cs c.literals :=
  fun _ ha => Clause.holds_iff.1 (ha c h)

theorem Follows.resolve {cs : List Clause} {ls ms : List Literal} (l : Literal)
    (hls : Follows cs ls) (hms : Follows cs ms) : Follows cs (resolve ls ms l) := by
  intro a ha
  obtain ⟨m, hm, ham⟩ := hls a ha
  obtain ⟨n, hn, han⟩ := hms a ha
  by_cases hml : m = l
  · refine ⟨n, mem_union.2 (.inr (List.mem_filter.2 ⟨hn, decide_eq_true ?_⟩)), han⟩
    rintro rfl
    rw [Literal.holds_negate, ← hml, ham] at han
    exact absurd han (by decide)
  · exact ⟨m, mem_union.2 (.inl (List.mem_filter.2 ⟨hm, decide_eq_true hml⟩)), ham⟩

end DefaultLogic.Sat
