import DefaultLogic.Sat.Semantics

/-!
# Exhaustive search

A complete search for literals that satisfy clauses: the shortest clause names a literal, which is
tried first and then its negation.  Each choice removes the clauses it satisfies and its negation
from the others, so the number of literals left goes down.  If literals are found, each clause has
one of them and none is beside its negation; if none are found, no assignment satisfies the clauses.
-/

namespace DefaultLogic.Sat

/-- What is left of the clauses once a literal is taken to be true. -/
def assign (l : Literal) (cs : List (List Literal)) : List (List Literal) :=
  (cs.filter fun c => !c.contains l).map fun c => c.filter (· ≠ l.negate)

def weight (cs : List (List Literal)) : Nat := cs.foldr (fun c n => c.length + n) 0

@[simp] theorem weight_cons (c : List Literal) (cs : List (List Literal)) :
    weight (c :: cs) = c.length + weight cs := rfl

theorem assign_cons (l : Literal) (c : List Literal) (cs : List (List Literal)) :
    assign l (c :: cs) =
      if l ∈ c then assign l cs else c.filter (· ≠ l.negate) :: assign l cs := by
  by_cases h : l ∈ c <;> simp [assign, h]

theorem weight_assign_le (l : Literal) (cs : List (List Literal)) :
    weight (assign l cs) ≤ weight cs := by
  induction cs with
  | nil => simp [assign]
  | cons c cs ih =>
    have := List.length_filter_le (· ≠ l.negate) c
    rw [assign_cons]
    split <;> simp only [weight_cons] <;> omega

/-- A choice on a literal of some clause makes the clauses smaller. -/
theorem weight_assign_lt {l : Literal} {c : List Literal} {cs : List (List Literal)} (hc : c ∈ cs)
    (hl : l ∈ c ∨ l.negate ∈ c) : weight (assign l cs) < weight cs := by
  induction cs with
  | nil => simp at hc
  | cons d cs ih =>
    have hle := weight_assign_le l cs
    rw [assign_cons]
    rcases List.mem_cons.1 hc with rfl | hc
    · split
      · next h =>
        have := List.length_pos_of_mem h
        rw [weight_cons]
        omega
      · next h =>
        have : (c.filter (· ≠ l.negate)).length < c.length :=
          List.length_filter_lt_length_iff_exists.2 ⟨l.negate, hl.resolve_left h, by simp⟩
        simp only [weight_cons]
        omega
    · have := List.length_filter_le (· ≠ l.negate) d
      have := ih hc
      split <;> simp only [weight_cons] <;> omega

def shortest? : List (List Literal) → Option (List Literal)
  | [] => none
  | c :: cs =>
    match shortest? cs with
    | none => some c
    | some d => if c.length ≤ d.length then some c else some d

theorem mem_of_shortest? {c : List Literal} :
    ∀ {cs : List (List Literal)}, shortest? cs = some c → c ∈ cs
  | d :: cs, h => by
    simp only [shortest?] at h
    split at h
    · simp_all
    · next e he =>
      split at h
      · simp_all
      · exact List.mem_cons_of_mem _ (mem_of_shortest? (he.trans h))

theorem eq_nil_of_shortest? {cs : List (List Literal)} (h : shortest? cs = none) : cs = [] := by
  cases cs with
  | nil => rfl
  | cons c cs =>
    rw [shortest?] at h
    split at h
    · cases h
    · split at h <;> cases h

def search (cs : List (List Literal)) : Option (List Literal) :=
  match _hc : shortest? cs with
  | none => some []
  | some [] => none
  | some (l :: _) =>
    match search (assign l cs) with
    | some ls => some (l :: ls)
    | none => (search (assign l.negate cs)).map (l.negate :: ·)
termination_by weight cs
decreasing_by
  · exact weight_assign_lt (mem_of_shortest? _hc) (.inl List.mem_cons_self)
  · exact weight_assign_lt (mem_of_shortest? _hc) (.inr (by simp [Literal.negate]))

/-! ## What is found -/

theorem mem_assign {l : Literal} {cs : List (List Literal)} {c : List Literal} :
    c ∈ assign l cs ↔ ∃ d ∈ cs, l ∉ d ∧ d.filter (· ≠ l.negate) = c := by
  simp [assign, and_assoc]

theorem index_ne_of_mem_assign {l m : Literal} {cs : List (List Literal)} {c : List Literal}
    (hc : c ∈ assign l cs) (hm : m ∈ c ∨ m.negate ∈ c) : m.index ≠ l.index := by
  obtain ⟨d, -, hl, rfl⟩ := mem_assign.1 hc
  rcases l with ⟨i, _ | _⟩ <;> rcases m with ⟨j, _ | _⟩ <;>
    simp only [List.mem_filter, Literal.negate, ne_eq] at hm hl ⊢ <;> grind

structure Found (cs : List (List Literal)) (ls : List Literal) : Prop where
  meets : ∀ c ∈ cs, ∃ l ∈ c, l ∈ ls
  occurs : ∀ l ∈ ls, ∃ c ∈ cs, l ∈ c ∨ l.negate ∈ c
  consistent : ∀ l ∈ ls, l.negate ∉ ls

theorem Found.cons {l : Literal} {c : List Literal} {cs : List (List Literal)} {ls : List Literal}
    (hc : c ∈ cs) (hl : l ∈ c ∨ l.negate ∈ c) (h : Found (assign l cs) ls) :
    Found cs (l :: ls) := by
  have fresh : ∀ m ∈ ls, m.index ≠ l.index := fun m hm =>
    let ⟨_, hd, hmd⟩ := h.occurs m hm
    index_ne_of_mem_assign hd hmd
  refine ⟨fun d hd => ?_, fun m hm => ?_, fun m hm hn => ?_⟩
  · by_cases hld : l ∈ d
    · exact ⟨l, hld, List.mem_cons_self⟩
    · obtain ⟨m, hm, hms⟩ := h.meets _ (mem_assign.2 ⟨d, hd, hld, rfl⟩)
      exact ⟨m, (List.mem_filter.1 hm).1, List.mem_cons_of_mem _ hms⟩
  · rcases List.mem_cons.1 hm with rfl | hm
    · exact ⟨c, hc, hl⟩
    · obtain ⟨d, hd, hmd⟩ := h.occurs m hm
      obtain ⟨e, he, -, rfl⟩ := mem_assign.1 hd
      exact ⟨e, he, hmd.imp (fun h => (List.mem_filter.1 h).1) fun h => (List.mem_filter.1 h).1⟩
  · rcases List.mem_cons.1 hm with rfl | hm <;> rcases List.mem_cons.1 hn with hn | hn
    · exact Literal.negate_ne _ hn
    · exact fresh _ hn rfl
    · exact fresh _ hm (congrArg Literal.index hn :)
    · exact h.consistent m hm hn

theorem found_of_search {cs : List (List Literal)} {ls : List Literal}
    (h : search cs = some ls) : Found cs ls := by
  fun_induction search cs generalizing ls with
  | case1 cs hc =>
    obtain rfl := eq_nil_of_shortest? hc
    cases h
    exact ⟨by simp, by simp, by simp⟩
  | case2 => cases h
  | case3 cs l rest hc ms hs ih =>
    cases h
    exact (ih hs).cons (mem_of_shortest? hc) (.inl List.mem_cons_self)
  | case4 cs l rest hc _ _ ih =>
    obtain ⟨ms, hs, rfl⟩ := Option.map_eq_some_iff.1 h
    exact (ih hs).cons (mem_of_shortest? hc) (.inr (by simp))

theorem meets_assign {a : Assignment} {l : Literal} {cs : List (List Literal)}
    (hl : l.holds a = true) (h : ∀ c ∈ cs, ∃ m ∈ c, m.holds a = true) :
    ∀ c ∈ assign l cs, ∃ m ∈ c, m.holds a = true := by
  rintro _ hc
  obtain ⟨d, hd, -, rfl⟩ := mem_assign.1 hc
  obtain ⟨m, hm, ham⟩ := h d hd
  refine ⟨m, List.mem_filter.2 ⟨hm, decide_eq_true ?_⟩, ham⟩
  rintro rfl
  rw [Literal.holds_negate, hl] at ham
  exact absurd ham (by decide)

theorem not_meets_of_search {cs : List (List Literal)} (h : search cs = none) (a : Assignment) :
    ¬∀ c ∈ cs, ∃ l ∈ c, l.holds a = true := by
  fun_induction search cs with
  | case1 => cases h
  | case2 cs hc => exact fun ha => by simpa using ha _ (mem_of_shortest? hc)
  | case3 => cases h
  | case4 cs l rest hc hs ih₁ ih₂ =>
    intro ha
    cases hl : l.holds a with
    | true => exact ih₁ hs (meets_assign hl ha)
    | false =>
      exact ih₂ (Option.map_eq_none_iff.1 h)
        (meets_assign (by rw [Literal.holds_negate, hl]; rfl) ha)

end DefaultLogic.Sat
