/-!
# Literals and clauses

Propositional variables are numbered from zero.  A clause lists its literals by variable, each once
and none beside its negation; a list with complementary literals is a tautology and gives no clause.

* `mem_arrange`, `pairwise_arrange`: an arranged list has the same literals, in increasing order.
* `pairwise_index`: if it has no literal beside its negation, its variables are all different.
-/

namespace DefaultLogic.Sat

structure Literal where
  index : Nat
  positive : Bool
  deriving DecidableEq

namespace Literal

def negate (l : Literal) : Literal := { l with positive := !l.positive }

/-- Literals are ordered by variable, the negative one first. -/
def key (l : Literal) : Nat := 2 * l.index + l.positive.toNat

/-- The DIMACS number: variables count from one and the sign tells the polarity. -/
def toDimacs (l : Literal) : Int :=
  if l.positive then (l.index : Int) + 1 else -((l.index : Int) + 1)

/-- The literal of a DIMACS number; zero is none. -/
def ofDimacs? (n : Int) : Option Literal :=
  if n = 0 then none else some ⟨n.natAbs - 1, 0 < n⟩

@[simp] theorem negate_negate (l : Literal) : l.negate.negate = l := by simp [negate]

theorem negate_ne (l : Literal) : l.negate ≠ l := fun h => by
  simpa [negate] using congrArg Literal.positive h

theorem ofDimacs?_toDimacs (l : Literal) : ofDimacs? l.toDimacs = some l := by
  rcases l with ⟨i, _ | _⟩ <;> simp only [ofDimacs?, toDimacs] <;> grind

theorem key_injective {l m : Literal} (h : l.key = m.key) : l = m := by
  rcases l with ⟨i, _ | _⟩ <;> rcases m with ⟨j, _ | _⟩ <;> simp [key] at h ⊢ <;> omega

/-- Whether a literal comes before another: by variable, the negative one first. -/
def Precedes (l m : Literal) : Prop :=
  l.index < m.index ∨ l.index = m.index ∧ l.positive = false ∧ m.positive = true

theorem precedes_iff {l m : Literal} : l.Precedes m ↔ l.key < m.key := by
  rcases l with ⟨i, _ | _⟩ <;> rcases m with ⟨j, _ | _⟩ <;> simp [Precedes, key] <;> omega

instance : Std.Asymm Precedes where
  asymm l m hlm hml := by
    rw [precedes_iff] at hlm hml
    exact Nat.lt_asymm hlm hml

theorem Precedes.trans {l m n : Literal} (hlm : l.Precedes m) (hmn : m.Precedes n) :
    l.Precedes n := by
  rw [precedes_iff] at *
  exact Nat.lt_trans hlm hmn

theorem precedes_of_not_precedes {l m : Literal} (h : ¬l.Precedes m) (hne : l ≠ m) :
    m.Precedes l := by
  rw [precedes_iff] at *
  have hkey : l.key ≠ m.key := fun hkey => hne (key_injective hkey)
  omega

/-- **No literal comes between the two of a variable.** -/
theorem not_precedes_negate {l m : Literal} (h : l.Precedes m) : ¬m.Precedes l.negate := by
  have hnext : l.negate.key ≤ l.key + 1 := by
    rcases l with ⟨i, _ | _⟩ <;>
      simp only [negate, key, Bool.not_false, Bool.not_true, Bool.toNat_false, Bool.toNat_true] <;>
      omega
  rw [precedes_iff] at *
  omega

end Literal

/-- Literals by variable, each once and none beside its negation. -/
@[ext] structure Clause where
  literals : List Literal
  increasing : literals.Pairwise (·.index < ·.index)
  deriving DecidableEq

namespace Clause

def unit (l : Literal) : Clause := ⟨[l], List.pairwise_singleton _ l⟩

/-! ## Arranged lists -/

/-- Puts a literal into its place of an ordered list, once. -/
def place (l : Literal) : List Literal → List Literal
  | [] => [l]
  | m :: ms => if l.key < m.key then l :: m :: ms else if l = m then m :: ms else m :: place l ms

def arrange (ls : List Literal) : List Literal := ls.foldr place []

theorem mem_place {x l : Literal} {ms : List Literal} : x ∈ place l ms ↔ x = l ∨ x ∈ ms := by
  induction ms with
  | nil => simp [place]
  | cons m ms ih =>
    rw [place]
    split
    · exact List.mem_cons
    · split
      · next hlm =>
        subst hlm
        rw [List.mem_cons]
        exact ⟨.inr, fun h => h.elim .inl id⟩
      · rw [List.mem_cons, ih, List.mem_cons]
        exact or_left_comm

theorem mem_arrange {x : Literal} {ls : List Literal} : x ∈ arrange ls ↔ x ∈ ls := by
  induction ls with
  | nil => exact Iff.rfl
  | cons l ls ih =>
    have hl : arrange (l :: ls) = place l (arrange ls) := rfl
    rw [hl, mem_place, ih, List.mem_cons]

theorem pairwise_place {l : Literal} {ms : List Literal} (h : ms.Pairwise Literal.Precedes) :
    (place l ms).Pairwise Literal.Precedes := by
  induction ms with
  | nil => exact List.pairwise_singleton _ _
  | cons m ms ih =>
    obtain ⟨hm, hms⟩ := List.pairwise_cons.1 h
    rw [place]
    split
    · next hkey =>
      have hlm : l.Precedes m := Literal.precedes_iff.2 hkey
      exact List.pairwise_cons.2 ⟨List.forall_mem_cons.2 ⟨hlm, fun x hx => hlm.trans (hm x hx)⟩, h⟩
    · next hkey =>
      split
      · exact h
      · next hne =>
        have hml : m.Precedes l :=
          Literal.precedes_of_not_precedes (mt Literal.precedes_iff.1 hkey) hne
        refine List.pairwise_cons.2 ⟨fun x hx => ?_, ih hms⟩
        rcases mem_place.1 hx with rfl | hx
        · exact hml
        · exact hm x hx

theorem pairwise_arrange (ls : List Literal) : (arrange ls).Pairwise Literal.Precedes := by
  induction ls with
  | nil => exact List.Pairwise.nil
  | cons l ls ih => exact pairwise_place ih

/-- Whether an ordered list has a literal beside its negation. -/
def clashes : List Literal → Bool
  | l :: m :: ms => l.negate = m || clashes (m :: ms)
  | _ => false

theorem clashes_cons {l : Literal} {ms : List Literal} (h : clashes ms = true) :
    clashes (l :: ms) = true := by
  cases ms with
  | nil => cases h
  | cons m ms => rw [clashes, h, Bool.or_true]

theorem clashes_of_negate_mem {l : Literal} {ms : List Literal}
    (h : (l :: ms).Pairwise Literal.Precedes) (hl : l.negate ∈ ms) : clashes (l :: ms) = true := by
  cases ms with
  | nil => cases hl
  | cons m ms =>
    have hlm : l.Precedes m := List.rel_of_pairwise_cons h List.mem_cons_self
    rcases List.mem_cons.1 hl with hm | hms
    · rw [clashes, decide_eq_true hm, Bool.true_or]
    · have hml : m.Precedes l.negate := List.rel_of_pairwise_cons h.of_cons hms
      exact absurd hml (Literal.not_precedes_negate hlm)

/-- **Without a clash, the literals of an increasing list are of different variables.** -/
theorem pairwise_index {ls : List Literal} (h : ls.Pairwise Literal.Precedes)
    (hc : ¬clashes ls = true) : ls.Pairwise (·.index < ·.index) := by
  induction ls with
  | nil => exact List.Pairwise.nil
  | cons l ms ih =>
    refine List.pairwise_cons.2 ⟨fun m hm => ?_, ih h.of_cons (mt clashes_cons hc)⟩
    rcases List.rel_of_pairwise_cons h hm with hlt | ⟨hindex, hl, hm'⟩
    · exact hlt
    · have hnegate : m = l.negate := by
        rcases l with ⟨i, p⟩
        rcases m with ⟨j, q⟩
        obtain rfl : i = j := hindex
        obtain rfl : p = false := hl
        obtain rfl : q = true := hm'
        rfl
      exact absurd (clashes_of_negate_mem h (hnegate ▸ hm)) hc

/-- The clause of the given literals, unless they make a tautology. -/
def ofList? (ls : List Literal) : Option Clause :=
  if h : clashes (arrange ls) then none
  else some ⟨arrange ls, pairwise_index (pairwise_arrange ls) h⟩

/-- The order of clauses, lexicographic in their literals. -/
def cmp (c d : Clause) : Ordering :=
  compare (c.literals.map Literal.key) (d.literals.map Literal.key)

def sort (cs : List Clause) : List Clause := cs.mergeSort fun c d => (cmp c d).isLE

end Clause

end DefaultLogic.Sat
