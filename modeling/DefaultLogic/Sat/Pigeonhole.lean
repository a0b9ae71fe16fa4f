import DefaultLogic.Sat.Outcome

/-!
# Pigeonholes

Clauses without a common literal need as many true literals as they are.  If all their literals lie
in fewer groups, and no two literals of a group can be true together, there are not enough of them.
Groups are formed greedily, and each clause looks for a group of its own along alternating paths; a
clause that finds none, and the clauses that stand in its way, are too many for their groups.
-/

namespace DefaultLogic.Sat

/-- Whether some clause says that two literals do not hold together. -/
def Excludes (cs : List Clause) (l m : Literal) : Prop :=
  ∃ c ∈ cs, c.literals = [l.negate, m.negate] ∨ c.literals = [m.negate, l.negate]

instance (cs : List Clause) (l m : Literal) : Decidable (Excludes cs l m) :=
  inferInstanceAs (Decidable (∃ c ∈ cs, _))

/-- Clauses and the groups that their literals lie in. -/
structure Crowd where
  clauses : List Clause
  groups : List (List Literal)

namespace Crowd

def literals (k : Crowd) : List Literal := k.clauses.flatMap Clause.literals

/-- Whether the clauses are too many for the groups. -/
def IsTight (cs : List Clause) (k : Crowd) : Prop :=
  (∀ c ∈ k.clauses, c ∈ cs) ∧ k.literals.Nodup ∧ (∀ g ∈ k.groups, g.Pairwise (Excludes cs)) ∧
    (∀ l ∈ k.literals, l ∈ k.groups.flatten) ∧ k.groups.length < k.clauses.length

instance (cs : List Clause) (k : Crowd) : Decidable (k.IsTight cs) :=
  inferInstanceAs (Decidable (_ ∧ _))

/-! ## Counting -/

section

variable {cs : List Clause} {a : Assignment}

theorem holds_eq_false_of_excludes (ha : ∀ c ∈ cs, c.holds a = true) {l m : Literal}
    (h : Excludes cs l m) (hl : l.holds a = true) : m.holds a = false := by
  obtain ⟨c, hc, h | h⟩ := h <;>
    simpa [Clause.holds, h, Literal.holds_negate, hl] using ha c hc

theorem countP_le_one (ha : ∀ c ∈ cs, c.holds a = true) {g : List Literal}
    (hg : g.Pairwise (Excludes cs)) : g.countP (·.holds a) ≤ 1 := by
  induction hg with
  | nil => simp
  | @cons l g hl _ ih =>
    rw [List.countP_cons]
    split
    · next hal =>
      have : g.countP (·.holds a) = 0 := List.countP_eq_zero.2 fun m hm => by
        simp [holds_eq_false_of_excludes ha (hl m hm) hal]
      omega
    · exact ih

theorem countP_flatten_le (ha : ∀ c ∈ cs, c.holds a = true) {gs : List (List Literal)}
    (hg : ∀ g ∈ gs, g.Pairwise (Excludes cs)) : gs.flatten.countP (·.holds a) ≤ gs.length := by
  induction gs with
  | nil => simp
  | cons g gs ih =>
    rw [List.flatten_cons, List.countP_append, List.length_cons]
    have := countP_le_one ha (hg g List.mem_cons_self)
    have := ih fun h hh => hg h (List.mem_cons_of_mem _ hh)
    omega

theorem length_le_countP {ks : List Clause} (hk : ∀ c ∈ ks, c.holds a = true) :
    ks.length ≤ (ks.flatMap Clause.literals).countP (·.holds a) := by
  induction ks with
  | nil => simp
  | cons c ks ih =>
    rw [List.flatMap_cons, List.countP_append, List.length_cons]
    have : 0 < c.literals.countP (·.holds a) :=
      List.countP_pos_iff.2 (Clause.holds_iff.1 (hk c List.mem_cons_self))
    have := ih fun d hd => hk d (List.mem_cons_of_mem _ hd)
    omega

theorem length_le_of_nodup {ls ms : List Literal} (h : ls.Nodup) (hs : ∀ l ∈ ls, l ∈ ms) :
    ls.length ≤ ms.length := by
  induction ls generalizing ms with
  | nil => simp
  | cons l ls ih =>
    obtain ⟨hl, hr⟩ := List.nodup_cons.1 h
    have hm := hs l List.mem_cons_self
    have : ls.length ≤ (ms.erase l).length := ih hr fun m hm =>
      (List.mem_erase_of_ne (ne_of_mem_of_not_mem hm hl)).2 (hs m (List.mem_cons_of_mem _ hm))
    rw [List.length_erase_of_mem hm] at this
    have := List.length_pos_of_mem hm
    rw [List.length_cons]
    omega

theorem countP_le_of_nodup {p : Literal → Bool} {ls ms : List Literal} (h : ls.Nodup)
    (hs : ∀ l ∈ ls, l ∈ ms) : ls.countP p ≤ ms.countP p := by
  rw [List.countP_eq_length_filter, List.countP_eq_length_filter]
  exact length_le_of_nodup (h.filter _) fun l hl =>
    List.mem_filter.2 ⟨hs l (List.mem_filter.1 hl).1, (List.mem_filter.1 hl).2⟩

theorem not_satisfiable_of_isTight {k : Crowd} (h : k.IsTight cs) : ¬Satisfiable cs := by
  rintro ⟨a, ha⟩
  obtain ⟨hc, hn, hg, hl, hlt⟩ := h
  have h₁ := length_le_countP fun c hk => ha c (hc c hk)
  have h₂ := countP_le_of_nodup (p := (·.holds a)) hn hl
  have h₃ := countP_flatten_le ha hg
  exact absurd hlt (Nat.not_lt.2 (Nat.le_trans h₁ (Nat.le_trans h₂ h₃)))

end

/-! ## Finding a crowd -/

/-- The literals that a literal excludes, by the key of the literal. -/
def rivals (cs : List Clause) (size : Nat) : Array (List Literal) :=
  cs.foldl
    (fun a c =>
      match c.literals with
      | [l, m] =>
        (a.modify l.negate.key (m.negate :: ·)).modify m.negate.key (l.negate :: ·)
      | _ => a)
    (Array.replicate size [])

/-- Clauses of three literals or more, none with a literal of an earlier one. -/
def disjoint (cs : List Clause) (size : Nat) : List Clause :=
  let add := fun (r : List Clause × Array Bool) (c : Clause) =>
    let (chosen, used) := r
    if c.literals.length < 3 || c.literals.any (fun l => used.getD l.key false) then (chosen, used)
    else (c :: chosen, c.literals.foldl (fun a l => a.setIfInBounds l.key true) used)
  (cs.foldl add ([], Array.replicate size false)).1.reverse

abbrev Group := List (Nat × Literal)

/-- Puts a literal into the first group whose members are rivals of it from other clauses, and tells
which one it is. -/
def join (rivals : List Literal) (i : Nat) (l : Literal) (groups : Array Group) :
    Array Group × Nat :=
  let place :=
    if rivals.isEmpty then none
    else groups.findIdx? fun g => g.all fun (j, m) => i != j && rivals.contains m
  match place with
  | some n => (groups.modify n ((i, l) :: ·), n)
  | none => (groups.push [(i, l)], groups.size)

/-- The groups of the literals of clauses, and for each clause the numbers of its groups. -/
def arrange (rivals : Array (List Literal)) (ks : List Clause) :
    Array Group × Array (List Nat) :=
  let add := fun (r : Array Group × Array (List Nat)) (c : Clause) =>
    let i := r.2.size
    let (groups, ns) := c.literals.foldl
      (fun (r : Array Group × List Nat) l =>
        let (groups, n) := join (rivals.getD l.key []) i l r.1
        (groups, n :: r.2))
      (r.1, [])
    (groups, r.2.push ns.reverse)
  ks.foldl add (#[], #[])

/-- Which groups have been tried, and which clause each of them belongs to. -/
structure Pairing where
  tried : Array Bool
  owners : Array (Option Nat)

/-- Looks for a group that a clause can have, if need be by finding its owner another one. -/
def claim (options : Array (List Nat)) : Nat → Nat → List Nat → Pairing → Bool × Pairing
  | 0, _, _, p => (false, p)
  | _, _, [], p => (false, p)
  | fuel + 1, i, n :: ns, p =>
    if p.tried.getD n true then claim options fuel i ns p
    else
      let p := { p with tried := p.tried.setIfInBounds n true }
      let take := fun (p : Pairing) => { p with owners := p.owners.setIfInBounds n (some i) }
      match p.owners.getD n none with
      | none => (true, take p)
      | some j =>
        match claim options fuel j (options.getD j []) p with
        | (true, p) => (true, take p)
        | (false, p) => claim options fuel i ns p

/-- The first clause that finds no group, with the pairing that it has failed in. -/
def unpaired? (options : Array (List Nat)) (fuel : Nat) :
    List Nat → Array (Option Nat) → Option (Nat × Pairing)
  | [], _ => none
  | i :: is, owners =>
    match claim options fuel i (options.getD i []) ⟨Array.replicate owners.size false, owners⟩ with
    | (true, p) => unpaired? options fuel is p.owners
    | (false, p) => some (i, p)

def find? (cs : List Clause) (count : Nat) : Option Crowd :=
  let ks := disjoint cs (2 * count)
  let (groups, options) := arrange (rivals cs (2 * count)) ks
  let fuel := 2 * count + ks.length + 1
  match unpaired? options fuel (List.range ks.length) (Array.replicate groups.size none) with
  | none => none
  | some (i, p) =>
    let ns := (List.range groups.size).filter fun n => p.tried.getD n false
    let owners := ns.filterMap fun n => p.owners.getD n none
    some ⟨(i :: owners).filterMap (ks[·]?), ns.map fun n => (groups.getD n []).map Prod.snd⟩

/-- Refutes clauses below a number of variables if they make a tight crowd. -/
def search (cs : List Clause) (count : Nat) : Outcome cs :=
  match find? cs count with
  | none => .undecided
  | some k => if h : k.IsTight cs then .refuted (not_satisfiable_of_isTight h) else .undecided

end Crowd

end DefaultLogic.Sat
