import DefaultLogic.Sat.Clause
import DefaultLogic.Formula.Clausal

/-!
# Numbered atoms

Atoms get their variables in the order they are inserted and keep them until the numbering is cut
below.  A numbering is looked up both ways: it has the list of the names, by variable, and a table
of the variables, by name.  The literals of signed atoms are numbered on the way.
-/

namespace DefaultLogic.Sat

structure Numbering where
  names : List String := []
  table : List (String × Nat) := []
  deriving DecidableEq

namespace Numbering

def size (n : Numbering) : Nat := n.names.length

def index? (n : Numbering) (name : String) : Option Nat := n.table.lookup name

def name? (n : Numbering) (index : Nat) : Option String := n.names[index]?

/-- The variable of an atom, a new one if it has none yet. -/
def insert (n : Numbering) (name : String) : Numbering × Nat :=
  match n.index? name with
  | some i => (n, i)
  | none => (⟨n.names ++ [name], n.table ++ [(name, n.size)]⟩, n.size)

def insertAll (n : Numbering) (names : List String) : Numbering :=
  names.foldl (fun n name => (n.insert name).1) n

def literal (n : Numbering) (a : SignedAtom) : Numbering × Literal :=
  let (n, i) := n.insert a.1
  (n, ⟨i, a.2⟩)

/-- Forgets the atoms from variable `size` on. -/
def truncate (n : Numbering) (size : Nat) : Numbering :=
  ⟨n.names.take size, n.table.filter fun p => !(n.names.drop size).contains p.1⟩

def literals (n : Numbering) : List SignedAtom → Numbering × List Literal
  | [] => (n, [])
  | a :: as =>
    let (n, l) := n.literal a
    let (n, ls) := n.literals as
    (n, l :: ls)

/-- Numbers the atoms of several lists and keeps the clauses that are no tautologies. -/
def clauses (n : Numbering) : List (List SignedAtom) → Numbering × List Clause
  | [] => (n, [])
  | c :: cs =>
    let (n, ls) := n.literals c
    let (n, rest) := n.clauses cs
    (n, (Clause.ofList? ls).toList ++ rest)

end Numbering

end DefaultLogic.Sat
