import DefaultLogic.Proofs.Default.Subsets
import Mathlib.Data.List.Sort
import Mathlib.Data.List.Lex

/-!
# Stepping meets every selection once

Selections of one size are compared by their first difference.  Behind its pivot a selection has the
largest numbers there can be, so a later selection differs from it at the pivot or before.

* `lt_of_next?`, `le_of_next?`: **the next selection is the least of those above.**
* `mem_onward`, `pairwise_onward`: so stepping on meets those from a selection on, in order.
* `onward?_eq_none_iff`: the step that panics is the first one, and this depends on the size alone.
* `mem_below`, `below_eq`: the sets of one size, as the enumeration by size has them.
* `enumerates_below`: **when the program panics, and what it meets when it does not.**
-/

namespace DefaultLogic

theorem lt_iff_of_length_eq {is js : List Nat} (h : is.length = js.length) :
    is < js ↔ ∃ i c d : Nat,
      is[i]? = some c ∧ js[i]? = some d ∧ c < d ∧ ∀ j < i, is[j]? = js[j]? := by
  rw [List.lt_iff_exists]
  constructor
  · rintro (⟨-, hlt⟩ | ⟨i, hi, hi', hbefore, hlt⟩)
    · omega
    · refine ⟨i, is[i], js[i], List.getElem?_eq_getElem hi, List.getElem?_eq_getElem hi', hlt, ?_⟩
      intro j hj
      rw [List.getElem?_eq_getElem (by omega), List.getElem?_eq_getElem (by omega), hbefore j hj]
  · rintro ⟨i, c, d, hc, hd, hlt, hbefore⟩
    obtain ⟨hi, rfl⟩ := List.getElem?_eq_some_iff.1 hc
    obtain ⟨hi', rfl⟩ := List.getElem?_eq_some_iff.1 hd
    refine .inr ⟨i, hi, hi', fun j hj => ?_, hlt⟩
    have heq := hbefore j hj
    rw [List.getElem?_eq_getElem (by omega), List.getElem?_eq_getElem (by omega)] at heq
    exact Option.some.inj heq

theorem le_of_forall_agreeing {is js : List Nat} (h : is.length = js.length)
    (hle : ∀ i c d : Nat, (∀ j < i, is[j]? = js[j]?) → is[i]? = some c → js[i]? = some d → c ≤ d) :
    is ≤ js := by
  rw [← not_lt]
  intro hlt
  obtain ⟨i, d, c, hd, hc, hdc, hbefore⟩ := (lt_iff_of_length_eq h.symm).1 hlt
  have hcd := hle i c d (fun j hj => (hbefore j hj).symm) hc hd
  omega

theorem le_of_lt_of_agreeing {is js : List Nat} {i c d : Nat} (hlt : is < js)
    (h : is.length = js.length) (hbefore : ∀ j < i, is[j]? = js[j]?) (hc : is[i]? = some c)
    (hd : js[i]? = some d) : c ≤ d := by
  obtain ⟨q, a, b, ha, hb, hab, hq⟩ := (lt_iff_of_length_eq h).1 hlt
  rcases Nat.lt_trichotomy i q with hiq | rfl | hqi
  · have heq := hq i hiq
    rw [hc, hd] at heq
    have := Option.some.inj heq
    omega
  · rw [ha] at hc
    rw [hb] at hd
    have := Option.some.inj hc
    have := Option.some.inj hd
    omega
  · have heq := hbefore q hqi
    rw [ha, hb] at heq
    have := Option.some.inj heq
    omega

namespace Selection

variable {n : UInt64} {o : Overflow} {s t u : Selection n} {c d i j : Nat}

/-! ## Numbers and places -/

theorem add_le_getElem? (hij : i ≤ j) (hc : s.numbers[i]? = some c) (hd : s.numbers[j]? = some d) :
    c + (j - i) ≤ d := by
  induction j, hij using Nat.le_induction generalizing d with
  | base =>
    obtain rfl := Option.some.inj (hc.symm.trans hd)
    omega
  | succ j hij ih =>
    obtain ⟨hj, rfl⟩ := List.getElem?_eq_some_iff.1 hd
    have hle := ih (List.getElem?_eq_getElem (by omega))
    have hlt := List.pairwise_iff_getElem.1 s.increasing j (j + 1) (by omega) hj (by omega)
    omega

theorem le_most (hc : s.numbers[i]? = some c) : c ≤ most n s.numbers.length i := by
  have hroom := add_le_of_getElem? hc
  have hi := (List.getElem?_eq_some_iff.1 hc).1
  rw [most]
  omega

theorem eq_most_of_pivot?_eq_none (h : s.pivot? o = some none) (hc : s.numbers[i]? = some c) :
    c = most n s.numbers.length i := by
  have hnone := List.find?_eq_none.1 (find?_of_pivot? h) (c, i)
  simpa [List.mem_zipIdx_iff_getElem?, hc] using hnone

theorem eq_most_of_pivot? (h : s.pivot? o = some (some (c, i))) (hij : i < j)
    (hd : s.numbers[j]? = some d) : d = most n s.numbers.length j := by
  obtain ⟨hj, rfl⟩ := List.getElem?_eq_some_iff.1 hd
  obtain ⟨-, m, hm, hpivot, hbefore⟩ := List.find?_eq_some_iff_getElem.1 (find?_of_pivot? h)
  have hlength : m < s.numbers.length := by simpa using hm
  have hplace : s.numbers.length - 1 - m = i := by
    have hsnd := congrArg Prod.snd hpivot
    simpa using hsnd
  have hnot := hbefore (s.numbers.length - 1 - j) (by omega)
  have hback : s.numbers.length - 1 - (s.numbers.length - 1 - j) = j := by omega
  simpa [hback] using hnot

/-! ## The next selection -/

theorem getElem?_raise (h : s.pivot? o = some (some (c, i))) (j : Nat) :
    (s.raise c i h).numbers[j]? =
      if j < i then s.numbers[j]?
      else if j < s.numbers.length then some (c + 1 + (j - i)) else none := by
  have hi := (List.getElem?_eq_some_iff.1 (of_pivot? h).1).1
  have htake : (s.numbers.take i).length = i := by
    rw [List.length_take]
    omega
  show (s.numbers.take i ++ List.range' (c + 1) (s.numbers.length - i))[j]? = _
  rw [List.getElem?_append, htake]
  split
  · next hj => rw [List.getElem?_take_of_lt hj]
  · next hj =>
    split
    · next hlt => rw [List.getElem?_range' (by omega), Nat.one_mul]
    · next hlt => exact List.getElem?_eq_none (by rw [List.length_range']; omega)

theorem lt_of_next? (h : s.next? o = some (some t)) : s.numbers < t.numbers := by
  have hlength := length_of_next? h
  obtain ⟨c, i, hpivot, rfl⟩ := next?_eq_some_some_iff.1 h
  have hc := (of_pivot? hpivot).1
  have hi := (List.getElem?_eq_some_iff.1 hc).1
  refine (lt_iff_of_length_eq hlength.symm).2 ⟨i, c, c + 1, hc, ?_, Nat.lt_succ_self c, ?_⟩
  · rw [getElem?_raise, if_neg (Nat.lt_irrefl i), if_pos hi, Nat.sub_self, Nat.add_zero]
  · intro j hj
    rw [getElem?_raise, if_pos hj]

theorem le_of_pivot? (h : s.pivot? o = some (some (c, i)))
    (hlength : u.numbers.length = s.numbers.length) {a b : Nat} (ha : s.numbers[j]? = some a)
    (hb : u.numbers[j]? = some b) (hab : a < b) : j ≤ i := by
  by_contra hj
  have hmost := eq_most_of_pivot? h (by omega) ha
  have hle := le_most hb
  rw [hlength] at hle
  omega

/-- **No selection lies between one and the next.** -/
theorem le_of_next? (h : s.next? o = some (some t))
    (hlength : u.numbers.length = s.numbers.length) (hsu : s.numbers < u.numbers) :
    t.numbers ≤ u.numbers := by
  have htlength := length_of_next? h
  obtain ⟨c, i, hpivot, rfl⟩ := next?_eq_some_some_iff.1 h
  have hc := (of_pivot? hpivot).1
  refine le_of_forall_agreeing (htlength.trans hlength.symm) fun p a b hbefore ha hb => ?_
  rw [getElem?_raise] at ha
  by_cases hp : p < i
  · -- Before the pivot the next selection is as `s`.
    rw [if_pos hp] at ha
    refine le_of_lt_of_agreeing hsu hlength.symm (fun j hj => ?_) ha hb
    rw [← hbefore j hj, getElem?_raise, if_pos (by omega)]
  · -- `u` starts above `c` at the pivot, and from there on its numbers grow at least as fast.
    have hplength := (List.getElem?_eq_some_iff.1 hb).1
    rw [if_neg hp, if_pos (by omega)] at ha
    obtain rfl := Option.some.inj ha
    obtain ⟨q, c', d, hc', hd, hcd, -⟩ := (lt_iff_of_length_eq hlength.symm).1 hsu
    have hq : q ≤ i := le_of_pivot? hpivot hlength hc' hd hcd
    have hqi : q = i := by
      by_contra hne
      have heq := hbefore q (by omega)
      rw [getElem?_raise, if_pos (by omega), hc', hd] at heq
      have := Option.some.inj heq
      omega
    subst hqi
    obtain rfl := Option.some.inj (hc.symm.trans hc')
    have hgrow := add_le_getElem? (by omega) hd hb
    omega

theorem not_lt_of_next? (h : s.next? o = some none)
    (hlength : t.numbers.length = s.numbers.length) : ¬s.numbers < t.numbers := by
  have hpivot := next?_eq_some_none_iff.1 h
  intro hlt
  obtain ⟨i, c, d, hc, hd, hcd, -⟩ := (lt_iff_of_length_eq hlength.symm).1 hlt
  have hmost := eq_most_of_pivot?_eq_none hpivot hc
  have hle := le_most hd
  rw [hlength] at hle
  omega

/-! ## Stepping on -/

/-- **The program panics before the first step or not at all.** -/
theorem onward?_eq_none_iff : s.onward? o = none ↔ s.Overflows o := by
  induction hm : s.remaining using Nat.strongRecOn generalizing s with
  | ind m ih =>
    rw [onward?]
    split
    · next h => exact iff_of_true rfl (next?_eq_none_iff.1 h)
    · next h =>
      refine iff_of_false (Option.some_ne_none _) fun hover => ?_
      rw [next?_eq_none_iff.2 hover] at h
      cases h
    · next u hu =>
      rw [Option.map_eq_none_iff, ih u.remaining (hm ▸ remaining_lt hu) rfl, Overflows, Overflows,
        length_of_next? hu]

/-- **Stepping on meets the selections of the same size that do not come before.** -/
theorem mem_onward {ts : List (Selection n)} (h : s.onward? o = some ts) :
    t ∈ ts ↔ t.numbers.length = s.numbers.length ∧ s.numbers ≤ t.numbers := by
  induction hm : s.remaining using Nat.strongRecOn generalizing s ts with
  | ind m ih =>
    rw [onward?] at h
    split at h
    · cases h
    · next hnext =>
      obtain rfl := Option.some.inj h
      rw [List.mem_singleton]
      constructor
      · rintro rfl
        exact ⟨rfl, le_rfl⟩
      · rintro ⟨hlength, hle⟩
        rcases hle.eq_or_lt with heq | hlt
        · exact Selection.ext heq.symm
        · exact absurd hlt (not_lt_of_next? hnext hlength)
    · next u hu =>
      obtain ⟨us, hus, rfl⟩ := Option.map_eq_some_iff.1 h
      rw [List.mem_cons, ih u.remaining (hm ▸ remaining_lt hu) hus rfl, length_of_next? hu]
      constructor
      · rintro (rfl | ⟨hlength, hle⟩)
        · exact ⟨rfl, le_rfl⟩
        · exact ⟨hlength, (lt_of_next? hu).le.trans hle⟩
      · rintro ⟨hlength, hle⟩
        rcases hle.eq_or_lt with heq | hlt
        · exact .inl (Selection.ext heq.symm)
        · exact .inr ⟨hlength, le_of_next? hu hlength hlt⟩

/-- **It meets them in lexicographic order**, each once. -/
theorem pairwise_onward {ts : List (Selection n)} (h : s.onward? o = some ts) :
    ts.Pairwise (·.numbers < ·.numbers) := by
  induction hm : s.remaining using Nat.strongRecOn generalizing s ts with
  | ind m ih =>
    rw [onward?] at h
    split at h
    · cases h
    · obtain rfl := Option.some.inj h
      exact List.pairwise_singleton _ s
    · next u hu =>
      obtain ⟨us, hus, rfl⟩ := Option.map_eq_some_iff.1 h
      refine List.pairwise_cons.2 ⟨fun t ht => ?_, ih u.remaining (hm ▸ remaining_lt hu) hus rfl⟩
      exact (lt_of_next? hu).trans_le ((mem_onward hus).1 ht).2

theorem first_le {k : UInt64} (h : k ≤ n) (hlength : t.numbers.length = k.toNat) :
    (first k h).numbers ≤ t.numbers := by
  have hfirst : (first k h).numbers.length = k.toNat := List.length_range
  refine le_of_forall_agreeing (hfirst.trans hlength.symm) fun i c d _ hc hd => ?_
  have hi := (List.getElem?_eq_some_iff.1 hd).1
  have hrange : (List.range k.toNat)[i]? = some c := hc
  rw [List.getElem?_range (by omega)] at hrange
  obtain rfl := Option.some.inj hrange
  have hgrow := add_le_getElem? (Nat.zero_le _) (List.getElem?_eq_getElem (by omega)) hd
  omega

end Selection

namespace Subsets

/-! ## Sets of numbers -/

variable {o : Overflow} {n k : UInt64} {Ss : List (List Nat)}

/-- **When the program panics**: the first set is no vector, or the first sum is no word. -/
theorem below?_eq_none_iff :
    below? o n k = none ↔
      k ≤ n ∧ (vectorLimit ≤ k.toNat ∨ o = .panics ∧ UInt64.size < n.toNat + k.toNat) := by
  rw [below?]
  split
  · next hk =>
    have hfirst : (Selection.first k hk).numbers.length = k.toNat := List.length_range
    split
    · next hvector =>
      rw [Option.map_eq_none_iff, Selection.onward?_eq_none_iff, Selection.Overflows, hfirst]
      exact ⟨fun hover => ⟨hk, .inr hover⟩, fun h => h.2.resolve_left (by omega)⟩
    · next hvector => exact iff_of_true rfl ⟨hk, .inl (by omega)⟩
  · next hk => exact iff_of_false (Option.some_ne_none _) fun h => hk h.1

theorem mem_below (h : below? o n k = some Ss) {S : List Nat} :
    S ∈ Ss ↔ S.length = k.toNat ∧ S.Pairwise (· < ·) ∧ ∀ i ∈ S, i < n.toNat := by
  rw [below?] at h
  split at h
  · next hk =>
    have hfirst : (Selection.first k hk).numbers.length = k.toNat := List.length_range
    split at h
    · obtain ⟨ss, hss, rfl⟩ := Option.map_eq_some_iff.1 h
      simp only [List.mem_map, Selection.mem_onward hss, hfirst]
      constructor
      · rintro ⟨s, ⟨hlength, -⟩, rfl⟩
        exact ⟨hlength, s.increasing, s.bounded⟩
      · rintro ⟨hlength, hincreasing, hbounded⟩
        let s : Selection n := ⟨S, hincreasing, hbounded⟩
        exact ⟨s, ⟨hlength, Selection.first_le hk hlength⟩, rfl⟩
    · cases h
  · next hk =>
    obtain rfl := Option.some.inj h
    refine iff_of_false List.not_mem_nil ?_
    rintro ⟨hlength, hincreasing, hbounded⟩
    have hle : S.length ≤ n.toNat := Selection.length_le ⟨S, hincreasing, hbounded⟩
    exact hk (UInt64.le_iff_toNat_le.2 (hlength ▸ hle))

theorem pairwise_below (h : below? o n k = some Ss) : Ss.Pairwise (· < ·) := by
  rw [below?] at h
  split at h
  · split at h
    · obtain ⟨ss, hss, rfl⟩ := Option.map_eq_some_iff.1 h
      exact List.pairwise_map.2 (Selection.pairwise_onward hss)
    · cases h
  · obtain rfl := Option.some.inj h
    exact List.Pairwise.nil

theorem below?_eq_some_nil_iff : below? o n k = some [] ↔ n < k := by
  constructor
  · intro h
    rw [← UInt64.not_le]
    intro hk
    have hmem : List.range k.toNat ∈ ([] : List (List Nat)) := (mem_below h).2
      ⟨List.length_range, List.pairwise_lt_range, (Selection.first k hk).bounded⟩
    cases hmem
  · intro h
    rw [below?, dif_neg (UInt64.not_le.2 h)]

theorem sublist_range_iff {n : Nat} {S : List Nat} :
    S.Sublist (List.range n) ↔ S.Pairwise (· < ·) ∧ ∀ i ∈ S, i < n := by
  constructor
  · intro h
    exact ⟨List.pairwise_lt_range.sublist h, fun i hi => List.mem_range.1 (h.subset hi)⟩
  · rintro ⟨hincreasing, hbounded⟩
    have hsub : S ⊆ List.range n := fun i hi => List.mem_range.2 (hbounded i hi)
    have hnodup : S.Nodup := hincreasing.imp Nat.ne_of_lt
    exact List.sublist_of_subperm_of_pairwise (List.subperm_of_subset hnodup hsub) hincreasing
      List.pairwise_lt_range

/-- **Stepping and recursion list the sets of one size alike.** -/
theorem below_eq (h : below? o n k = some Ss) : Ss = ofSize k.toNat (List.range n.toNat) := by
  have hordered : (ofSize k.toNat (List.range n.toNat)).Pairwise (· < ·) := by
    have hplaces : (ofSize k.toNat (List.range n.toNat)).Pairwise fun A B =>
        List.Lex (· < ·) (A.map id) (B.map id) := pairwise_ofSize List.pairwise_lt_range k.toNat
    simp only [List.map_id] at hplaces
    exact hplaces
  have hnodup : ∀ {Ss : List (List Nat)}, Ss.Pairwise (· < ·) → Ss.Nodup := fun h => h.imp ne_of_lt
  have hperm : Ss.Perm (ofSize k.toNat (List.range n.toNat)) := by
    rw [List.perm_ext_iff_of_nodup (hnodup (pairwise_below h)) (hnodup hordered)]
    intro S
    rw [mem_below h, mem_ofSize, sublist_range_iff]
    exact and_comm
  exact List.Perm.eq_of_pairwise' (pairwise_below h) hordered hperm

/-! ## All sizes -/

theorem mapM_eq_some_iff {α β : Type} {f : α → Option β} {as : List α} {bs : List β} :
    as.mapM f = some bs ↔ as.map f = bs.map some := by
  induction as generalizing bs with
  | nil => cases bs <;> simp
  | cons a as ih =>
    rw [List.mapM_cons, List.map_cons]
    constructor
    · intro h
      obtain ⟨b, hb, h⟩ := Option.bind_eq_some_iff.1 h
      obtain ⟨cs, hcs, h⟩ := Option.bind_eq_some_iff.1 h
      obtain rfl := Option.some.inj h
      rw [hb, ih.1 hcs, List.map_cons]
    · intro h
      cases bs with
      | nil => cases h
      | cons b bs =>
        obtain ⟨hb, hbs⟩ := List.cons.inj h
        rw [hb, ih.2 hbs]
        rfl

theorem toNat_ofNat_of_mem_range {n : UInt64} {k : Nat} (h : k ∈ List.range (n.toNat + 1)) :
    (UInt64.ofNat k).toNat = k := by
  have hn : n.toNat < UInt64.size := n.toNat_lt_size
  have hk := List.mem_range.1 h
  exact UInt64.toNat_ofNat_of_lt (by omega)

/-- The sizes whose sets are met together are those of vectors, and for them no sum is too large. -/
theorem allBelow?_eq (h : n.toNat < vectorLimit) :
    allBelow? o n = some (bySize (List.range n.toNat)) := by
  have hsizes : (List.range (n.toNat + 1)).mapM (fun k => below? o n (.ofNat k)) =
      some ((List.range (n.toNat + 1)).map fun k => ofSize k (List.range n.toNat)) := by
    rw [mapM_eq_some_iff, List.map_map]
    refine List.map_congr_left fun k hk => ?_
    have hword := toNat_ofNat_of_mem_range hk
    have hlt := List.mem_range.1 hk
    have hlimit : 2 * vectorLimit ≤ UInt64.size := by decide
    have hsome : below? o n (.ofNat k) ≠ none := by
      rw [Ne, below?_eq_none_iff, hword]
      rintro ⟨-, hvector | ⟨-, hsum⟩⟩ <;> omega
    obtain ⟨Ss, hSs⟩ := Option.ne_none_iff_exists'.1 hsome
    rw [hSs, below_eq hSs, hword]
    rfl
  rw [allBelow?, hsizes, bySize, List.length_range]
  rfl

theorem allBelow?_eq_none (h : vectorLimit ≤ n.toNat) : allBelow? o n = none := by
  have hnone : below? o n (.ofNat vectorLimit) = none := by
    refine below?_eq_none_iff.2 ⟨UInt64.le_iff_toNat_le.2 ?_, .inl ?_⟩
    · rw [toNat_ofNat_of_mem_range (n := n) (List.mem_range.2 (by omega))]
      exact h
    · rw [toNat_ofNat_of_mem_range (n := n) (List.mem_range.2 (by omega))]
  have hsizes : (List.range (n.toNat + 1)).mapM (fun k => below? o n (.ofNat k)) = none := by
    rw [Option.eq_none_iff_forall_ne_some]
    intro bs hbs
    have hmem : none ∈ (List.range (n.toNat + 1)).map fun k => below? o n (.ofNat k) :=
      List.mem_map.2 ⟨vectorLimit, List.mem_range.2 (by omega), hnone⟩
    rw [mapM_eq_some_iff.1 hbs] at hmem
    obtain ⟨b, -, hb⟩ := List.mem_map.1 hmem
    cases hb
  rw [allBelow?, hsizes]
  rfl

/-- **When the program panics, and what it meets when it does not.**  Of the two steps to the
largest number for a place only the sum can leave the words; where results wrap round the number is
right all the same.  So the first step panics or none, and without a panic stepping meets every set
of `k` numbers below `n` once and in lexicographic order.  The enumeration by size puts the sets of
all sizes one after the other, so it has every set of numbers below `n` once, smaller ones first. -/
theorem enumerates_below (o : Overflow) (n k : UInt64) :
    (∀ (s : Selection n) (i : Nat), i < s.numbers.length → s.numbers.length ≤ i + n.toNat ∧
        Selection.most? o n s.numbers.length i =
          if o = .panics ∧ UInt64.size ≤ i + n.toNat then none
          else some (i + n.toNat - s.numbers.length)) ∧
      (∀ s : Selection n, s.next? o = none ↔
        o = .panics ∧ UInt64.size < n.toNat + s.numbers.length) ∧
      (below? o n k = none ↔
        k ≤ n ∧ (vectorLimit ≤ k.toNat ∨ o = .panics ∧ UInt64.size < n.toNat + k.toNat)) ∧
      (below? o n k = some [] ↔ n < k) ∧
      (∀ Ss, below? o n k = some Ss →
        (∀ S, S ∈ Ss ↔ S.length = k.toNat ∧ S.Pairwise (· < ·) ∧ ∀ i ∈ S, i < n.toNat) ∧
          Ss.Pairwise (· < ·)) ∧
      (allBelow? o n = none ↔ vectorLimit ≤ n.toNat) ∧
      ∀ Ss, allBelow? o n = some Ss →
        (∀ S, S ∈ Ss ↔ S.Pairwise (· < ·) ∧ ∀ i ∈ S, i < n.toNat) ∧
          Ss.Pairwise fun A B => A.length < B.length ∨ A.length = B.length ∧ A < B := by
  refine ⟨fun s i hi => ⟨s.length_le.trans (Nat.le_add_left _ i), ?_⟩,
    fun s => Selection.next?_eq_none_iff, below?_eq_none_iff, below?_eq_some_nil_iff,
    fun Ss hSs => ⟨fun S => mem_below hSs, pairwise_below hSs⟩, ?_, fun Ss hSs => ?_⟩
  · exact Selection.most?_eq hi s.length_le
  · constructor
    · intro hnone
      by_contra hsmall
      rw [allBelow?_eq (not_le.1 hsmall)] at hnone
      cases hnone
    · exact allBelow?_eq_none
  · have hsmall : n.toNat < vectorLimit := by
      by_contra hlarge
      rw [allBelow?_eq_none (not_lt.1 hlarge)] at hSs
      cases hSs
    rw [allBelow?_eq hsmall] at hSs
    obtain rfl := Option.some.inj hSs
    refine ⟨fun S => mem_bySize.trans sublist_range_iff, ?_⟩
    have hplaces : (bySize (List.range n.toNat)).Pairwise (Before id) :=
      pairwise_bySize List.pairwise_lt_range
    refine hplaces.imp fun {A B} h => ?_
    rw [Before, List.map_id, List.map_id] at h
    exact h

/-- Below the largest word there are sets of two numbers, and there is one set of all the numbers.
Stepping panics before the first of them: `1 + n` is no word, and the other set is no vector. -/
theorem below?_largest :
    let n : UInt64 := 18446744073709551615
    (below? .panics n 2 = none ∧ [0, 1].length = 2 ∧ [0, 1].Pairwise (· < ·) ∧
      ∀ i ∈ [0, 1], i < n.toNat) ∧
    below? .panics n n = none ∧ below? .wraps n n = none ∧
      (List.range n.toNat).length = n.toNat ∧ (List.range n.toNat).Pairwise (· < ·) ∧
      ∀ i ∈ List.range n.toNat, i < n.toNat := by
  intro n
  have hvector : ∀ o, below? o n n = none := fun o =>
    below?_eq_none_iff.2 ⟨UInt64.le_refl n, .inl (by decide)⟩
  refine ⟨⟨?_, rfl, by decide, by decide⟩, hvector .panics, hvector .wraps, List.length_range,
    List.pairwise_lt_range, fun i hi => List.mem_range.1 hi⟩
  exact below?_eq_none_iff.2 ⟨by decide, .inr ⟨rfl, by decide⟩⟩

/-- The last number is raised while it has room, and then the one before it. -/
example : below? .panics 4 2 = some [[0, 1], [0, 2], [0, 3], [1, 2], [1, 3], [2, 3]] := by
  cbv

end Subsets

end DefaultLogic
