import DefaultLogic.Sat.Semantics

/-!
# Learners

The state of a search that learns: the clauses it knows, the values it has given, and how values
force others.  A clause that is not satisfied needs attention only when it has a single literal that
does not fail, so two of its literals are watched and it is looked at when one of them fails.

Every list of literals is kept together with the proof that it follows from the given clauses.
Literals are known by their keys, so that those of a variable stand next to each other.
-/

namespace DefaultLogic.Sat

/-- Literals one of which holds wherever the given clauses do. -/
abbrev Lesson (cs : List Clause) := { ls : List Literal // Follows cs ls }

namespace Lesson

variable {cs : List Clause}

def all (cs : List Clause) : List (Lesson cs) :=
  cs.attach.map fun c => ⟨c.1.literals, .of_mem c.2⟩

def resolve (c d : Lesson cs) (l : Literal) : Lesson cs :=
  ⟨Sat.resolve c.1 d.1 l, c.2.resolve l d.2⟩

end Lesson

namespace Literal

def negateKey (k : Nat) : Nat := if k % 2 = 0 then k + 1 else k - 1

theorem negateKey_key (l : Literal) : negateKey l.key = l.negate.key := by
  unfold negateKey key negate
  cases l.positive <;> simp only [Bool.toNat_false, Bool.toNat_true, Bool.not_false,
    Bool.not_true] <;> split <;> omega

end Literal

/-- What the values given so far make of a literal. -/
inductive Standing where
  | free
  | holds
  | fails
  deriving DecidableEq

/-- A clause with the keys of its literals and of the two that are watched. -/
structure Watched (cs : List Clause) where
  lesson : Lesson cs
  keys : List Nat
  first : Nat
  second : Nat
  /-- The number of decisions that the clause tied together when it was learned; none is given. -/
  glue : Nat

/-- That a clause watches a literal.  While the other literal holds, the clause is satisfied. -/
structure Watch where
  clause : Nat
  other : Nat

structure Learner (cs : List Clause) where
  clauses : Array (Watched cs)
  /-- The clauses that watch a literal, by the key of the literal. -/
  watches : Array (List Watch)
  /-- By the key of the literal. -/
  standings : Array Standing
  /-- The number of decisions before a variable got its value. -/
  levels : Array Nat
  /-- The number of variables that got their values before. -/
  ranks : Array Nat
  /-- The clause that forced the value of a variable, unless it was decided. -/
  reasons : Array (Option (Lesson cs))
  /-- The keys of the literals that hold, the latest last. -/
  trail : Array Nat
  /-- The number of literals of the trail whose consequences have been drawn. -/
  drawn : Nat
  level : Nat
  conflicts : Nat
  /-- The number of clauses from which on the less useful ones are forgotten. -/
  capacity : Nat
  /-- How much a variable has had to do with conflicts, the recent ones above all. -/
  scores : Array Nat
  /-- How much the next conflict adds to a score. -/
  bonus : Nat
  /-- The latest value of a variable. -/
  phases : Array Bool
  /-- The variables that occur. -/
  occurring : List Nat

namespace Learner

variable {cs : List Clause}

def standing (s : Learner cs) (k : Nat) : Standing := s.standings.getD k .free

def assign (s : Learner cs) (k : Nat) (reason? : Option (Lesson cs)) : Learner cs :=
  { s with
    standings := (s.standings.setIfInBounds k .holds).setIfInBounds (Literal.negateKey k) .fails
    levels := s.levels.setIfInBounds (k / 2) s.level
    ranks := s.ranks.setIfInBounds (k / 2) s.trail.size
    reasons := s.reasons.setIfInBounds (k / 2) reason?
    trail := s.trail.push k }

def watch (s : Learner cs) (k : Nat) (w : Watch) : Learner cs :=
  { s with watches := s.watches.modify k (w :: ·) }

def learn (s : Learner cs) (w : Watched cs) : Learner cs :=
  let n := s.clauses.size
  ({ s with clauses := s.clauses.push w }.watch w.first ⟨n, w.second⟩).watch w.second ⟨n, w.first⟩

/-- Gives a clause another second literal to be watched. -/
def rewatch (s : Learner cs) (n : Nat) (w : Watched cs) : Learner cs :=
  { s with clauses := s.clauses.setIfInBounds n w }.watch w.second ⟨n, w.first⟩

/-! ## Consequences -/

/-- A literal besides the given one that does not fail. -/
def replacement? (standings : Array Standing) (other : Nat) : List Nat → Option Nat
  | [] => none
  | k :: ks =>
    if k = other then replacement? standings other ks
    else
      match standings.getD k .free with
      | .fails => replacement? standings other ks
      | _ => some k

/-- Draws the consequences of a literal that fails for some clauses that watch it, up to one that
fails too. -/
def drawFrom (s : Learner cs) (k : Nat) : List Watch → Learner cs × Option (Lesson cs)
  | [] => (s, none)
  | v :: vs =>
    match s.standing v.other with
    | .holds => (s.watch k v).drawFrom k vs
    | _ =>
      match s.clauses[v.clause]? with
      | none => s.drawFrom k vs
      | some w =>
        let other := if w.first = k then w.second else w.first
        match s.standing other with
        | .holds => (s.watch k ⟨v.clause, other⟩).drawFrom k vs
        | standing =>
          match replacement? s.standings other w.keys with
          | some m => (s.rewatch v.clause { w with first := other, second := m }).drawFrom k vs
          | none =>
            let s := s.watch k v
            match standing with
            | .fails => (vs.foldl (fun s v => s.watch k v) s, some w.lesson)
            | _ => (s.assign other (some w.lesson)).drawFrom k vs

/-- Draws the consequences of all literals of the trail. -/
def draw (s : Learner cs) : Nat → Learner cs × Option (Lesson cs)
  | 0 => (s, none)
  | fuel + 1 =>
    match s.trail[s.drawn]? with
    | none => (s, none)
    | some k =>
      let k := Literal.negateKey k
      let vs := s.watches.getD k []
      let s := { s with drawn := s.drawn + 1, watches := s.watches.setIfInBounds k [] }
      match s.drawFrom k vs with
      | (s, none) => s.draw fuel
      | (s, some c) => (s, some c)

/-! ## Beginning -/

/-- Takes in clauses, up to one that fails at once. -/
def takeIn (s : Learner cs) : List (Lesson cs) → Learner cs × Option (Lesson cs)
  | [] => (s, none)
  | c :: rest =>
    match c.1.map Literal.key with
    | [] => (s, some c)
    | [k] =>
      match s.standing k with
      | .free => (s.assign k (some c)).takeIn rest
      | .holds => s.takeIn rest
      | .fails => (s, some c)
    | k :: m :: ks => (s.learn ⟨c, k :: m :: ks, k, m, 0⟩).takeIn rest

def occurringBelow (cs : List Clause) (count : Nat) : List Nat :=
  let present := cs.foldl
    (fun a c => c.literals.foldl (fun a l => a.setIfInBounds l.index true) a)
    (Array.replicate count false)
  (List.range count).filter fun i => present.getD i false

/-- A learner with values for the variables below a number, before it knows any clause. -/
def ignorant (cs : List Clause) (count : Nat) : Learner cs where
  clauses := #[]
  watches := Array.replicate (2 * count) []
  standings := Array.replicate (2 * count) .free
  levels := Array.replicate count 0
  ranks := Array.replicate count 0
  reasons := Array.replicate count none
  trail := #[]
  drawn := 0
  level := 0
  conflicts := 0
  capacity := cs.length + 1000
  scores := Array.replicate count 0
  bonus := 1000
  phases := Array.replicate count false
  occurring := occurringBelow cs count

end Learner

end DefaultLogic.Sat
