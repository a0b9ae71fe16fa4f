import DefaultLogic.Sat.Learner
import DefaultLogic.Sat.Outcome

/-!
# Learning search

A search that draws a lesson from each conflict.  Literals are decided one after the other, and each
decision is followed by all that it forces.  When a clause has failed, it is resolved with the
clauses that forced its literals until a single literal of the latest decision is left: this new
clause is learned, and the search goes back to the earliest decision under which it forces that
literal.

What is learned follows from the given clauses, and an assignment is checked before it is offered.
So the outcome is right however the search chooses its way.
-/

namespace DefaultLogic.Sat.Learner

variable {cs : List Clause}

/-! ## Lessons -/

def rankOf (s : Learner cs) (l : Literal) : Nat := s.ranks.getD l.index 0

def levelOf (s : Learner cs) (l : Literal) : Nat := s.levels.getD l.index 0

def reason? (s : Learner cs) (l : Literal) : Option (Lesson cs) := s.reasons.getD l.index none

def latest? (s : Learner cs) : List Literal → Option Literal
  | [] => none
  | l :: ls => some (ls.foldl (fun l m => if s.rankOf l < s.rankOf m then m else l) l)

/-- Whether a literal of a clause fails because others do. -/
def isImplied (s : Learner cs) (ls : List Literal) (l : Literal) : Bool :=
  match s.reason? l with
  | none => false
  | some d => d.1.all fun m => m = l.negate || ls.contains m

/-- The literals to be resolved away: those of the latest decision if there are several, and those
that fail under no decision or because others do. -/
def superfluous (s : Learner cs) (ls : List Literal) : List Literal :=
  match ls.filter fun l => s.levelOf l = s.level with
  | _ :: _ :: _ => ls.filter fun l => s.levelOf l = s.level || s.levelOf l = 0
  | _ => ls.filter fun l => s.levelOf l = 0 || s.isImplied ls l

def score (s : Learner cs) (ls : List Literal) : Learner cs :=
  { s with
    scores := ls.foldl (fun a l => a.modify l.index (· + s.bonus)) s.scores }

/-- Draws the lesson from a clause that has failed. -/
def explain (s : Learner cs) : Nat → Lesson cs → Learner cs × Lesson cs
  | 0, c => (s, c)
  | fuel + 1, c =>
    match s.latest? (s.superfluous c.1) with
    | none => (s, c)
    | some l =>
      match s.reason? l with
      | none => (s, c)
      | some d => (s.score d.1).explain fuel (c.resolve d l)

/-! ## Going back -/

/-- Takes back the values that were given after a number of decisions. -/
def undo (level : Nat) : Nat → Learner cs → Learner cs
  | 0, s => s
  | fuel + 1, s =>
    match s.trail.back? with
    | none => s
    | some k =>
      if level < s.levels.getD (k / 2) 0 then
        undo level fuel { s with
          standings := (s.standings.setIfInBounds k .free).setIfInBounds (Literal.negateKey k) .free
          trail := s.trail.pop
          phases := s.phases.setIfInBounds (k / 2) (k % 2 == 1) }
      else s

def backTo (s : Learner cs) (level : Nat) : Learner cs :=
  let s := undo level s.trail.size s
  { s with level, drawn := s.trail.size }

/-- The greatest bonus; beyond it all scores are scaled down. -/
def bonusLimit : Nat := 1000000000000000

/-- Makes the next conflict count more than the past ones. -/
def age (s : Learner cs) : Learner cs :=
  if bonusLimit < s.bonus then
    { s with bonus := s.bonus / 1000000000000, scores := s.scores.map (· / 1000000000000) }
  else { s with bonus := s.bonus + s.bonus / 20 }

/-- The number of levels at which the literals of a clause got their values. -/
def glue (s : Learner cs) (ls : List Literal) : Nat := (ls.map s.levelOf).eraseDups.length

/-- Forgets the clauses that tie more decisions together than others do, once there are many. -/
def forget (s : Learner cs) : Learner cs :=
  if s.clauses.size < s.capacity then s
  else
    let learned := s.clauses.filter (0 < ·.glue)
    let limit := max 2 (learned.foldl (fun n w => n + w.glue) 0 / (learned.size + 1))
    (s.clauses.filter (·.glue ≤ limit)).foldl learn
      { s with
        clauses := #[]
        watches := Array.replicate s.watches.size []
        capacity := s.capacity + 100 }

/-- The number of conflicts after which the search starts anew with what it has learned. -/
def patience : Nat := 256

/-- Learns a clause and goes back to where it forces a literal. -/
def adopt (s : Learner cs) (c : Lesson cs) : Learner cs :=
  let s := { s with conflicts := s.conflicts + 1 }.age
  match s.latest? c.1 with
  | none => s
  | some l =>
    match s.latest? (c.1.filter (· ≠ l)) with
    | none => (s.backTo 0).assign l.key (some c)
    | some m =>
      let w : Watched cs := ⟨c, c.1.map Literal.key, l.key, m.key, s.glue c.1⟩
      if s.conflicts % patience = 0 then (s.backTo 0).forget.learn w
      else ((s.backTo (s.levelOf m)).learn w).assign l.key (some c)

/-! ## Decisions -/

/-- The open variable with the highest score, the first of them. -/
def candidate? (s : Learner cs) : Option Nat :=
  s.occurring.foldl
    (fun best? i =>
      match s.standing (2 * i) with
      | .free =>
        match best? with
        | some j => if s.scores.getD j 0 < s.scores.getD i 0 then some i else best?
        | none => some i
      | _ => best?)
    none

def decideOn (s : Learner cs) (i : Nat) : Learner cs :=
  { s with level := s.level + 1 }.assign (2 * i + (s.phases.getD i false).toNat) none

/-- The values given; a variable without a value is false. -/
def assignment (s : Learner cs) : Assignment := fun i => s.standing (2 * i + 1) = .holds

/-- Goes on from a state, or from a conflict in it, whose consequences have been drawn. -/
def run : Nat → Learner cs × Option (Lesson cs) → Outcome cs
  | 0, _ => .undecided
  | fuel + 1, (s, some c) =>
    let (s, c) := (s.score c.1).explain (s.ranks.size + 1) c
    if h : c.1 = [] then .refuted (not_satisfiable_of_follows c.2 h)
    else
      let s := s.adopt c
      run fuel (s.draw (s.ranks.size + 1))
  | fuel + 1, (s, none) =>
    match s.candidate? with
    | none => .ofAssignment cs s.assignment
    | some i =>
      let s := s.decideOn i
      run fuel (s.draw (s.ranks.size + 1))

/-- Searches for an assignment of the variables below a number, with at most so many decisions and
conflicts. -/
def search (cs : List Clause) (count effort : Nat) : Outcome cs :=
  match (ignorant cs count).takeIn (Lesson.all cs) with
  | (s, none) => run effort (s.draw (count + 1))
  | (s, some c) => run effort (s, some c)

end DefaultLogic.Sat.Learner
