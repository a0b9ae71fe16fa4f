import DefaultLogic.Default.Subsets
import DefaultLogic.Log

/-!
# The enumeration by size

The sublists of a list are its subsets when the list has no repetitions.

* `mem_bySize`: the enumeration has exactly the sublists.
* `pairwise_bySize`: **it has smaller ones first, and those of one size in lexicographic order of
  positions.**
* `exists_isMinimal`: below every sublist that has a property there is a minimal one.
* `value_visitList_of_more`: a visitor that always wants more folds over the whole list.
* `value_visitList_filter`: elements that a visitor passes over do not count.
* `visitList_keeps`: what each visit keeps, all of them keep.
* `visitList_related`: visits that agree on each element agree on the list.
-/

namespace DefaultLogic

/-- Whether both visitors want more, or neither does, and what they have gathered is related. -/
def Progress.Agrees {σ τ : Type} (Related : σ → τ → Prop) : Progress σ → Progress τ → Prop
  | .more s, .more s' | .done s, .done s' => Related s s'
  | _, _ => False

namespace Subsets

variable {α σ τ : Type}

/-! ## Sublists -/

theorem mem_ofSize {k : Nat} {xs S : List α} :
    S ∈ ofSize k xs ↔ S.Sublist xs ∧ S.length = k := by
  induction xs generalizing k S with
  | nil =>
    cases k with
    | zero =>
      rw [ofSize, List.mem_singleton, List.sublist_nil]
      exact ⟨fun h => ⟨h, h ▸ rfl⟩, And.left⟩
    | succ k =>
      rw [ofSize, List.sublist_nil]
      constructor
      · intro h
        cases h
      · rintro ⟨rfl, h⟩
        cases h
  | cons x xs ih =>
    cases k with
    | zero =>
      rw [ofSize, List.mem_singleton]
      constructor
      · rintro rfl
        exact ⟨List.nil_sublist _, rfl⟩
      · intro h
        exact List.eq_nil_of_length_eq_zero h.2
    | succ k =>
      rw [ofSize]
      split
      · next hshort =>
        constructor
        · intro h
          cases h
        · intro h
          have hle := h.1.length_le
          rw [h.2, List.length_cons] at hle
          omega
      · rw [List.mem_append, List.mem_map, ih, List.sublist_cons_iff]
        constructor
        · rintro (⟨A, hA, rfl⟩ | ⟨hsub, hlen⟩)
          · obtain ⟨hsub, hlen⟩ := ih.1 hA
            exact ⟨.inr ⟨A, rfl, hsub⟩, congrArg (· + 1) hlen⟩
          · exact ⟨.inl hsub, hlen⟩
        · rintro ⟨hsub | ⟨A, rfl, hsub⟩, hlen⟩
          · exact .inr ⟨hsub, hlen⟩
          · exact .inl ⟨A, ih.2 ⟨hsub, Nat.succ.inj hlen⟩, rfl⟩

theorem mem_bySize {xs S : List α} : S ∈ bySize xs ↔ S.Sublist xs := by
  rw [bySize, List.mem_flatMap]
  constructor
  · rintro ⟨k, -, hS⟩
    exact (mem_ofSize.1 hS).1
  · intro hS
    have hlt : S.length < xs.length + 1 := Nat.lt_succ_of_le hS.length_le
    exact ⟨S.length, List.mem_range.2 hlt, mem_ofSize.2 ⟨hS, rfl⟩⟩

theorem bySize_eq_cons (xs : List α) : ∃ rest, bySize xs = [] :: rest := by
  rw [bySize, List.range_succ_eq_map, List.flatMap_cons, ofSize]
  exact ⟨_, rfl⟩

theorem sublist_of_subset {xs A B : List α} (hxs : xs.Nodup) (hA : A.Sublist xs) (hB : B.Sublist xs)
    (h : A ⊆ B) : A.Sublist B := by
  induction xs generalizing A B with
  | nil =>
    rw [List.sublist_nil.1 hA]
    exact List.nil_sublist B
  | cons x xs ih =>
    obtain ⟨hx, hxs⟩ := List.nodup_cons.1 hxs
    have hdrop : ∀ {C D : List α}, C.Sublist xs → C ⊆ x :: D → C ⊆ D := by
      intro C D hC hCD c hc
      refine (List.mem_cons.1 (hCD hc)).resolve_left ?_
      rintro rfl
      exact hx (hC.subset hc)
    rcases List.sublist_cons_iff.1 hA with hA' | ⟨A', rfl, hA'⟩
    · rcases List.sublist_cons_iff.1 hB with hB' | ⟨B', rfl, hB'⟩
      · exact ih hxs hA' hB' h
      · exact (ih hxs hA' hB' (hdrop hA' h)).cons x
    · have hsub : A' ⊆ B := fun a ha => h (List.mem_cons_of_mem x ha)
      rcases List.sublist_cons_iff.1 hB with hB' | ⟨B', rfl, hB'⟩
      · exact absurd (hB'.subset (h List.mem_cons_self)) hx
      · exact (ih hxs hA' hB' (hdrop hA' hsub)).cons_cons x

theorem eq_of_subset_subset {xs A B : List α} (hxs : xs.Nodup) (hA : A.Sublist xs)
    (hB : B.Sublist xs) (hAB : A ⊆ B) (hBA : B ⊆ A) : A = B :=
  (sublist_of_subset hxs hA hB hAB).eq_of_length_le (sublist_of_subset hxs hB hA hBA).length_le

theorem length_lt_of_ssubset {xs A B : List α} (hxs : xs.Nodup) (hA : A.Sublist xs)
    (hB : B.Sublist xs) (hAB : A ⊆ B) (hBA : ¬B ⊆ A) : A.length < B.length := by
  have hsub := sublist_of_subset hxs hA hB hAB
  by_cases hlen : A.length = B.length
  · rw [hsub.eq_of_length hlen] at hBA
    exact absurd (List.Subset.refl B) hBA
  · have hle := hsub.length_le
    omega

/-! ## Minimal sublists -/

/-- A sublist that has a property, no proper subset of it having the property. -/
structure IsMinimal (P : List α → Prop) (xs S : List α) : Prop where
  sublist : S.Sublist xs
  holds : P S
  minimal : ∀ M, M.Sublist xs → P M → M ⊆ S → S ⊆ M

theorem isMinimal_congr {P Q : List α → Prop} {xs S : List α}
    (h : ∀ S, S.Sublist xs → (P S ↔ Q S)) : IsMinimal P xs S ↔ IsMinimal Q xs S := by
  constructor
  · intro hS
    exact ⟨hS.sublist, (h S hS.sublist).1 hS.holds,
      fun M hM hQ => hS.minimal M hM ((h M hM).2 hQ)⟩
  · intro hS
    exact ⟨hS.sublist, (h S hS.sublist).2 hS.holds,
      fun M hM hP => hS.minimal M hM ((h M hM).1 hP)⟩

theorem exists_isMinimal {P : List α → Prop} {xs S : List α} (hxs : xs.Nodup) (hS : S.Sublist xs)
    (h : P S) : ∃ M, IsMinimal P xs M ∧ M ⊆ S := by
  induction hn : S.length using Nat.strongRecOn generalizing S with
  | ind n ih =>
    by_cases hmin : IsMinimal P xs S
    · exact ⟨S, hmin, List.Subset.refl S⟩
    · have hsmaller : ∃ M, M.Sublist xs ∧ P M ∧ M ⊆ S ∧ ¬S ⊆ M := by
        refine Classical.byContradiction fun hnone => hmin ⟨hS, h, fun M hM hPM hMS => ?_⟩
        exact Classical.byContradiction fun hSM => hnone ⟨M, hM, hPM, hMS, hSM⟩
      obtain ⟨M, hM, hPM, hMS, hSM⟩ := hsmaller
      have hlt : M.length < n := hn ▸ length_lt_of_ssubset hxs hM hS hMS hSM
      obtain ⟨N, hN, hNM⟩ := ih M.length hlt hM hPM rfl
      exact ⟨N, hN, List.Subset.trans hNM hMS⟩

/-- A stronger property has the same minimal sublists if the minimal ones have it. -/
theorem isMinimal_iff_of_imp {P Q : List α → Prop} {xs : List α} (hxs : xs.Nodup)
    (hPQ : ∀ S, P S → Q S) (hmin : ∀ S, IsMinimal Q xs S → P S) (S : List α) :
    IsMinimal P xs S ↔ IsMinimal Q xs S := by
  constructor
  · intro hS
    refine ⟨hS.sublist, hPQ S hS.holds, fun M hM hQM hMS => ?_⟩
    obtain ⟨N, hN, hNM⟩ := exists_isMinimal hxs hM hQM
    exact List.Subset.trans (hS.minimal N hN.sublist (hmin N hN) (List.Subset.trans hNM hMS)) hNM
  · intro hS
    exact ⟨hS.sublist, hmin S hS, fun M hM hPM hMS => hS.minimal M hM (hPQ M hPM) hMS⟩

/-! ## The order -/

/-- Smaller lists come first, and lists of one size in lexicographic order of positions. -/
def Before (pos : α → Nat) (A B : List α) : Prop :=
  A.length < B.length ∨
    A.length = B.length ∧ List.Lex (· < ·) (A.map pos) (B.map pos)

theorem Before.length_le {pos : α → Nat} {A B : List α} (h : Before pos A B) :
    A.length ≤ B.length := by
  rcases h with h | ⟨h, -⟩
  · exact Nat.le_of_lt h
  · exact Nat.le_of_eq h

theorem not_before_self (pos : α → Nat) (A : List α) : ¬Before pos A A := by
  rintro (h | ⟨-, h⟩)
  · exact Nat.lt_irrefl _ h
  · exact List.lex_irrefl Nat.lt_irrefl _ h

theorem pairwise_ofSize {pos : α → Nat} {xs : List α} (hxs : xs.Pairwise (pos · < pos ·))
    (k : Nat) :
    (ofSize k xs).Pairwise fun A B => List.Lex (· < ·) (A.map pos) (B.map pos) := by
  induction xs generalizing k with
  | nil =>
    cases k with
    | zero => exact List.pairwise_singleton _ _
    | succ k => exact List.Pairwise.nil
  | cons x xs ih =>
    obtain ⟨hx, hxs⟩ := List.pairwise_cons.1 hxs
    cases k with
    | zero => exact List.pairwise_singleton _ _
    | succ k =>
      rw [ofSize]
      split
      · exact List.Pairwise.nil
      · refine List.pairwise_append.2 ⟨?_, ih hxs (k + 1), ?_⟩
        · exact List.pairwise_map.2 ((ih hxs k).imp fun h => List.Lex.cons h)
        · intro A hA B hB
          obtain ⟨A, -, rfl⟩ := List.mem_map.1 hA
          obtain ⟨hsub, hlen⟩ := mem_ofSize.1 hB
          cases B with
          | nil => cases hlen
          | cons b B => exact List.Lex.rel (hx b (hsub.subset List.mem_cons_self))

/-- **The enumeration has smaller sublists first, and those of one size in lexicographic order.** -/
theorem pairwise_bySize {pos : α → Nat} {xs : List α} (hxs : xs.Pairwise (pos · < pos ·)) :
    (bySize xs).Pairwise (Before pos) := by
  rw [bySize, List.pairwise_flatMap]
  constructor
  · intro k _
    apply (pairwise_ofSize hxs k).imp_of_mem
    intro A B hA hB hlex
    have hlen : A.length = B.length := by rw [(mem_ofSize.1 hA).2, (mem_ofSize.1 hB).2]
    exact .inr ⟨hlen, hlex⟩
  · apply List.pairwise_lt_range.imp
    intro j k hjk A hA B hB
    have hlen : A.length < B.length := by
      rw [(mem_ofSize.1 hA).2, (mem_ofSize.1 hB).2]
      exact hjk
    exact .inl hlen

theorem pairwise_idxOf [BEq α] [LawfulBEq α] {xs : List α} (hxs : xs.Nodup) :
    xs.Pairwise (xs.idxOf · < xs.idxOf ·) := by
  rw [List.pairwise_iff_getElem]
  intro i j hi hj hij
  rw [hxs.idxOf_getElem, hxs.idxOf_getElem]
  exact hij

theorem nodup_bySize [BEq α] [LawfulBEq α] {xs : List α} (hxs : xs.Nodup) : (bySize xs).Nodup := by
  refine (pairwise_bySize (pairwise_idxOf hxs)).imp ?_
  rintro A _ h rfl
  exact not_before_self _ A h

/-! ## Visits -/

theorem value_visitList_of_more {visit : α → σ → Logged (Progress σ)} {step : α → σ → σ}
    {xs : List α} (h : ∀ x ∈ xs, ∀ s, (visit x s).value = .more (step x s)) (s : σ) :
    (visitList visit xs s).value = .more (xs.foldl (fun s x => step x s) s) := by
  induction xs generalizing s with
  | nil => rfl
  | cons x xs ih =>
    obtain ⟨hx, hxs⟩ := List.forall_mem_cons.1 h
    rw [visitList, Logged.value_bind, hx s]
    exact ih hxs (step x s)

theorem value_visitList_map {β : Type} (f : α → β) (visit : β → σ → Logged (Progress σ))
    (xs : List α) (s : σ) :
    (visitList visit (xs.map f) s).value = (visitList (fun x => visit (f x)) xs s).value := by
  induction xs generalizing s with
  | nil => rfl
  | cons x xs ih =>
    rw [List.map_cons, visitList, visitList, Logged.value_bind, Logged.value_bind]
    cases (visit (f x) s).value with
    | done r => rfl
    | more r => exact ih r

theorem value_visitList_filter {visit visit' : α → σ → Logged (Progress σ)} {p : α → Bool}
    (h : ∀ x s, (visit x s).value = if p x then (visit' x s).value else .more s) (xs : List α)
    (s : σ) :
    (visitList visit xs s).value = (visitList visit' (xs.filter p) s).value := by
  induction xs generalizing s with
  | nil => rfl
  | cons x xs ih =>
    rw [visitList, Logged.value_bind, h]
    by_cases hp : p x = true
    · rw [if_pos hp, List.filter_cons_of_pos hp, visitList, Logged.value_bind]
      cases (visit' x s).value with
      | done r => rfl
      | more r => exact ih r
    · rw [if_neg hp, List.filter_cons_of_neg hp]
      exact ih s

theorem visitList_keeps {visit : α → σ → Logged (Progress σ)} {Keeps : σ → Prop} {xs : List α}
    (h : ∀ x ∈ xs, ∀ s, Keeps s → Keeps (visit x s).value.state) {s : σ} (hs : Keeps s) :
    Keeps (visitList visit xs s).value.state := by
  induction xs generalizing s with
  | nil => exact hs
  | cons x xs ih =>
    obtain ⟨hx, hxs⟩ := List.forall_mem_cons.1 h
    have hvisit := hx s hs
    rw [visitList, Logged.value_bind]
    cases hv : (visit x s).value with
    | done r =>
      rw [hv] at hvisit
      exact hvisit
    | more r =>
      rw [hv] at hvisit
      exact ih hxs hvisit

theorem visitList_related {visit : α → σ → Logged (Progress σ)}
    {visit' : α → τ → Logged (Progress τ)} {Related : σ → τ → Prop} {xs : List α}
    (h : ∀ x ∈ xs, ∀ s s', Related s s' → (visit x s).value.Agrees Related (visit' x s').value)
    {s : σ} {s' : τ} (hs : Related s s') :
    (visitList visit xs s).value.Agrees Related (visitList visit' xs s').value := by
  induction xs generalizing s s' with
  | nil => exact hs
  | cons x xs ih =>
    obtain ⟨hx, hxs⟩ := List.forall_mem_cons.1 h
    have hvisit := hx s s' hs
    rw [visitList, visitList, Logged.value_bind, Logged.value_bind]
    cases hv : (visit x s).value with
    | more r =>
      rw [hv] at hvisit
      cases hv' : (visit' x s').value with
      | more r' =>
        rw [hv'] at hvisit
        exact ih hxs hvisit
      | done r' =>
        rw [hv'] at hvisit
        exact hvisit.elim
    | done r =>
      rw [hv] at hvisit
      cases hv' : (visit' x s').value with
      | more r' =>
        rw [hv'] at hvisit
        exact hvisit.elim
      | done r' =>
        rw [hv'] at hvisit
        exact hvisit

end Subsets

end DefaultLogic
