import DefaultLogic.Sat.Semantics
import Mathlib.Data.List.Sort

/-!
# The clause of a list of literals

Literals are put in order and each is kept once, which leaves the set of literals as it is.  No
literal comes between the two of a variable, so a literal and its negation have become neighbours.

* `exists_of_clashes`: a list is only dropped for a literal beside its negation.
* `clashes_iff`: in an increasing list **comparing neighbours finds every pair of opposites**.
* `holds_ofList?`: **the clause of a list, if there is one, holds where some literal of the list
  does**, and a list without a clause has such a literal everywhere.
* `ofList?_lists`: the clause of a list is the increasing list of its literals.
-/

namespace DefaultLogic.Sat

namespace Clause

/-! ## Opposites -/

theorem exists_of_clashes {ls : List Literal} (h : clashes ls = true) :
    ∃ l ∈ ls, l.negate ∈ ls := by
  induction ls with
  | nil => cases h
  | cons l ls ih =>
    cases ls with
    | nil => cases h
    | cons m ms =>
      rw [clashes, Bool.or_eq_true, decide_eq_true_eq] at h
      rcases h with hlm | hms
      · exact ⟨l, List.mem_cons_self, hlm ▸ List.mem_cons_of_mem _ List.mem_cons_self⟩
      · obtain ⟨n, hn, hn'⟩ := ih hms
        exact ⟨n, List.mem_cons_of_mem _ hn, List.mem_cons_of_mem _ hn'⟩

/-- **Among the neighbours of an increasing list is every literal that has its negation there.** -/
theorem clashes_iff {ls : List Literal} (h : ls.Pairwise Literal.Precedes) :
    clashes ls = true ↔ ∃ l ∈ ls, l.negate ∈ ls := by
  refine ⟨exists_of_clashes, ?_⟩
  rintro ⟨l, hl, hl'⟩
  induction ls with
  | nil => cases hl
  | cons m ms ih =>
    -- the first of the two stands at the head, or both stand behind it
    rcases List.mem_cons.1 hl with rfl | hms
    · rcases List.mem_cons.1 hl' with heq | hms'
      · exact absurd heq l.negate_ne
      · exact clashes_of_negate_mem h hms'
    · rcases List.mem_cons.1 hl' with rfl | hms'
      · rw [← l.negate_negate] at hms
        exact clashes_of_negate_mem h hms
      · exact clashes_cons (ih h.of_cons hms hms')

/-! ## The clause of a list -/

theorem mem_of_ofList? {ls : List Literal} {c : Clause} (h : ofList? ls = some c) {l : Literal} :
    l ∈ c.literals ↔ l ∈ ls := by
  rw [ofList?] at h
  split at h
  · cases h
  · obtain rfl := Option.some.inj h
    exact mem_arrange

/-- **A list of literals and its clause hold together**, and a list that has none always holds. -/
theorem holds_ofList? (a : Assignment) (ls : List Literal) :
    ((ofList? ls).toList.all (·.holds a)) = ls.any (·.holds a) := by
  cases h : ofList? ls with
  | none =>
    rw [ofList?] at h
    split at h
    · next hc =>
      obtain ⟨l, hl, hl'⟩ := exists_of_clashes hc
      have hany : ls.any (·.holds a) = true := by
        rw [List.any_eq_true]
        cases hal : l.holds a with
        | true => exact ⟨l, mem_arrange.1 hl, hal⟩
        | false => exact ⟨l.negate, mem_arrange.1 hl', by rw [Literal.holds_negate, hal]; rfl⟩
      rw [hany]
      rfl
    · cases h
  | some c =>
    have hiff : c.holds a = true ↔ ls.any (·.holds a) = true := by
      rw [holds_iff, List.any_eq_true]
      exact exists_congr fun l => and_congr_left fun _ => mem_of_ofList? h
    rw [Option.toList_some, List.all_cons, List.all_nil, Bool.and_true]
    exact Bool.eq_iff_iff.2 hiff

theorem ofList?_eq_none_iff {ls : List Literal} :
    ofList? ls = none ↔ ∃ l ∈ ls, l.negate ∈ ls := by
  have hclash : clashes (arrange ls) = true ↔ ∃ l ∈ ls, l.negate ∈ ls := by
    simp only [clashes_iff (pairwise_arrange ls), mem_arrange]
  rw [← hclash, ofList?]
  split
  · next hc => exact iff_of_true rfl hc
  · next hc => exact iff_of_false nofun hc

/-- Whether a clause has the literals of a list, in increasing order. -/
structure Lists (c : Clause) (ls : List Literal) : Prop where
  increasing : c.literals.Pairwise Literal.Precedes
  mem_iff : ∀ l, l ∈ c.literals ↔ l ∈ ls

theorem Lists.unique {c d : Clause} {ls : List Literal} (hc : c.Lists ls) (hd : d.Lists ls) :
    c = d := by
  refine Clause.ext ?_
  exact hc.increasing.eq_of_mem_iff hd.increasing fun l => (hc.mem_iff l).trans (hd.mem_iff l).symm

theorem lists_of_ofList? {ls : List Literal} {c : Clause} (h : ofList? ls = some c) :
    c.Lists ls := by
  refine ⟨?_, fun l => mem_of_ofList? h⟩
  rw [ofList?] at h
  split at h
  · cases h
  · obtain rfl := Option.some.inj h
    exact pairwise_arrange ls

theorem ofList?_eq_some_iff {ls : List Literal} {c : Clause} :
    ofList? ls = some c ↔ (∀ l ∈ ls, l.negate ∉ ls) ∧ c.Lists ls := by
  constructor
  · intro h
    refine ⟨fun l hl hl' => ?_, lists_of_ofList? h⟩
    rw [ofList?_eq_none_iff.2 ⟨l, hl, hl'⟩] at h
    cases h
  · rintro ⟨hfree, hc⟩
    cases h : ofList? ls with
    | none =>
      obtain ⟨l, hl, hl'⟩ := ofList?_eq_none_iff.1 h
      exact absurd hl' (hfree l hl)
    | some d => rw [hc.unique (lists_of_ofList? h)]

/-- **A list of literals has no clause exactly when it has a literal together with its negation, and
else its clause is the increasing list of its literals.**  So lists of the same literals have the
same clause, and the clause holds where some literal of the list does. -/
theorem ofList?_lists (ls : List Literal) :
    (ofList? ls = none ↔ ∃ l ∈ ls, l.negate ∈ ls) ∧
      (∀ c, ofList? ls = some c ↔ (∀ l ∈ ls, l.negate ∉ ls) ∧ c.Lists ls) ∧
      (∀ ms, (∀ l, l ∈ ms ↔ l ∈ ls) → ofList? ms = ofList? ls) ∧
      ∀ c, ofList? ls = some c → ∀ a, c.holds a = true ↔ ∃ l ∈ ls, l.holds a = true := by
  refine ⟨ofList?_eq_none_iff, fun c => ofList?_eq_some_iff, ?_, ?_⟩
  · intro ms hms
    refine Option.ext fun c => ?_
    have hlists : c.Lists ms ↔ c.Lists ls := by
      constructor
      · exact fun hc => ⟨hc.increasing, fun l => (hc.mem_iff l).trans (hms l)⟩
      · exact fun hc => ⟨hc.increasing, fun l => (hc.mem_iff l).trans (hms l).symm⟩
    rw [ofList?_eq_some_iff, ofList?_eq_some_iff, hlists]
    simp only [hms]
  · intro c hc a
    rw [holds_iff]
    exact exists_congr fun l => and_congr_left fun _ => mem_of_ofList? hc

/-- Neither the order in which literals are given nor their repetition tells in the clause. -/
theorem ofList?_lists_repeated :
    let ls : List Literal := [⟨2, true⟩, ⟨0, false⟩, ⟨2, true⟩, ⟨1, false⟩]
    let ms : List Literal := [⟨1, false⟩, ⟨0, false⟩, ⟨2, true⟩]
    let c : Clause := ⟨[⟨0, false⟩, ⟨1, false⟩, ⟨2, true⟩], by decide⟩
    ofList? ls = some c ∧ ofList? ms = ofList? ls ∧
      ∀ a, c.holds a = true ↔ ∃ l ∈ ls, l.holds a = true := by
  intro ls ms c
  have hls : ofList? ls = some c := by decide
  obtain ⟨-, -, hsame, hholds⟩ := ofList?_lists ls
  refine ⟨hls, hsame ms fun l => ?_, hholds _ hls⟩
  simp only [ls, ms, List.mem_cons, List.not_mem_nil, or_false]
  tauto

/-- Opposites that stand apart become neighbours. -/
example : ofList? [⟨3, true⟩, ⟨1, false⟩, ⟨5, true⟩, ⟨3, false⟩] = none := by decide

end Clause

end DefaultLogic.Sat
