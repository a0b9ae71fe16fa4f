import DefaultLogic.Proofs.Formula.Clausal
import DefaultLogic.Proofs.Sat.Clause
import DefaultLogic.Sat.Numbering

/-!
# Numbering atoms keeps the meaning of clauses

A numbering is *exact* when its table is the one that its list of names gives.  Then its two
directions are inverse to each other.

* `IsExact.index?_eq_some_iff`: a name has a variable exactly when the variable has the name.
* `isExact_insert`, `extends_clauses`: numbering new atoms keeps a numbering exact and only extends
  its list of names; `clauses_of_mem`: numbering old ones changes nothing.
* `IsExact.truncate_eq`: cutting a numbering back to an earlier size gives the earlier numbering.
* `all_encode`: **under an assignment that matches a valuation, numbered clauses hold where their
  signed atoms do.**
-/

namespace DefaultLogic.Sat

namespace Numbering

/-- No atom has two variables, and the table has the variables of the list of names. -/
structure IsExact (n : Numbering) : Prop where
  nodup : n.names.Nodup
  table : n.table = n.names.zipIdx

theorem isExact_empty : IsExact {} := ⟨List.nodup_nil, rfl⟩

theorem lookup_zipIdx {names : List String} (h : names.Nodup) (name : String) (k i : Nat) :
    (names.zipIdx k).lookup name = some i ↔ k ≤ i ∧ names[i - k]? = some name := by
  induction names generalizing k with
  | nil => simp
  | cons m names ih =>
    rw [List.nodup_cons] at h
    rw [List.zipIdx_cons, List.lookup_cons]
    by_cases hm : name = m
    · subst hm
      rw [beq_self_eq_true]
      constructor
      · intro hk
        obtain rfl := Option.some.inj hk
        simp
      · rintro ⟨hk, hi⟩
        rcases Nat.eq_or_lt_of_le hk with rfl | hlt
        · rfl
        · rw [show i - k = (i - (k + 1)) + 1 by omega, List.getElem?_cons_succ] at hi
          exact absurd (List.mem_of_getElem? hi) h.1
    · rw [beq_false_of_ne hm]
      rw [ih h.2 (k + 1)]
      constructor
      · rintro ⟨hk, hi⟩
        rw [show i - k = (i - (k + 1)) + 1 by omega, List.getElem?_cons_succ]
        exact ⟨by omega, hi⟩
      · rintro ⟨hk, hi⟩
        rcases Nat.eq_or_lt_of_le hk with rfl | hlt
        · rw [Nat.sub_self, List.getElem?_cons_zero] at hi
          exact absurd (Option.some.inj hi).symm hm
        · rw [show i - k = (i - (k + 1)) + 1 by omega, List.getElem?_cons_succ] at hi
          exact ⟨hlt, hi⟩

namespace IsExact

variable {m n : Numbering}

/-- **The two directions of an exact numbering are inverse to each other.** -/
theorem index?_eq_some_iff (h : n.IsExact) {name : String} {i : Nat} :
    n.index? name = some i ↔ n.name? i = some name := by
  rw [index?, h.table, lookup_zipIdx h.nodup]
  simp [name?]

theorem exists_index? (h : n.IsExact) {name : String} (hn : name ∈ n.names) :
    ∃ i, n.index? name = some i := by
  obtain ⟨i, hi⟩ := List.mem_iff_getElem?.1 hn
  exact ⟨i, h.index?_eq_some_iff.2 hi⟩

theorem not_mem_of_index? (h : n.IsExact) {name : String} (hn : n.index? name = none) :
    name ∉ n.names := by
  intro hmem
  obtain ⟨i, hi⟩ := h.exists_index? hmem
  rw [hn] at hi
  cases hi

theorem mem_of_index? (h : n.IsExact) {name : String} {i : Nat} (hn : n.index? name = some i) :
    name ∈ n.names :=
  List.mem_of_getElem? (h.index?_eq_some_iff.1 hn)

theorem index?_of_prefix (hm : m.IsExact) (hn : n.IsExact) (h : m.names <+: n.names) {name : String}
    {i : Nat} (hi : m.index? name = some i) : n.index? name = some i := by
  rw [hm.index?_eq_some_iff, name?] at hi
  rw [hn.index?_eq_some_iff, name?]
  obtain ⟨rest, hrest⟩ := h
  have hlt : i < m.names.length := (List.getElem?_eq_some_iff.1 hi).1
  rw [← hrest, List.getElem?_append_left hlt]
  exact hi

/-- **Cutting a numbering back to an earlier size gives the earlier numbering.** -/
theorem truncate_eq (hm : m.IsExact) (hn : n.IsExact) (h : m.names <+: n.names) :
    n.truncate m.size = m := by
  obtain ⟨rest, hrest⟩ := h
  have hdisjoint : ∀ name ∈ m.names, name ∉ rest := by
    have hnodup := hn.nodup
    rw [← hrest] at hnodup
    exact fun name hm hr => (List.nodup_append.1 hnodup).2.2 name hm name hr rfl
  have htake : n.names.take m.size = m.names := by rw [← hrest, size, List.take_left]
  have hdrop : n.names.drop m.size = rest := by rw [← hrest, size, List.drop_left]
  have hkeep : (m.names.zipIdx.filter fun p => !rest.contains p.1) = m.names.zipIdx := by
    rw [List.filter_eq_self]
    intro p hp
    have hp1 : p.1 ∈ m.names := List.mem_of_getElem? (List.mem_zipIdx_iff_getElem?.1 hp)
    simpa using hdisjoint p.1 hp1
  have hgone : ((rest.zipIdx (0 + m.names.length)).filter fun p => !rest.contains p.1) = [] := by
    rw [List.filter_eq_nil_iff]
    intro p hp
    have hp1 : p.1 ∈ rest := List.mem_of_getElem? (List.mem_zipIdx_iff_le_and_getElem?_sub.1 hp).2
    simpa using hp1
  have htable : (n.table.filter fun p => !rest.contains p.1) = m.table := by
    rw [hn.table, hm.table, ← hrest, List.zipIdx_append, List.filter_append, hkeep, hgone,
      List.append_nil]
  rw [truncate, htake, hdrop, htable]

end IsExact

/-! ## Insertion -/

variable {n : Numbering}

theorem isExact_insert (h : n.IsExact) (name : String) : (n.insert name).1.IsExact := by
  rw [insert]
  split
  · exact h
  · next hname =>
    have hnew : name ∉ n.names := h.not_mem_of_index? hname
    refine ⟨?_, ?_⟩
    · have hname : [name].Nodup := List.nodup_cons.2 ⟨List.not_mem_nil, List.nodup_nil⟩
      refine List.nodup_append.2 ⟨h.nodup, hname, ?_⟩
      intro a ha b hb hab
      obtain rfl := List.mem_singleton.1 hb
      exact hnew (hab ▸ ha)
    · show n.table ++ [(name, n.size)] = (n.names ++ [name]).zipIdx
      rw [List.zipIdx_append, h.table, size, Nat.zero_add, List.zipIdx_singleton]

theorem prefix_insert (n : Numbering) (name : String) : n.names <+: (n.insert name).1.names := by
  rw [insert]
  split
  · exact List.prefix_rfl
  · exact List.prefix_append _ _

theorem index?_insert (h : n.IsExact) (name : String) :
    (n.insert name).1.index? name = some (n.insert name).2 := by
  have hexact := isExact_insert h name
  rw [insert] at hexact ⊢
  split
  · next hname => exact hname
  · next hname =>
    rw [hname] at hexact
    rw [hexact.index?_eq_some_iff]
    show (n.names ++ [name])[n.names.length]? = some name
    rw [List.getElem?_append_right (Nat.le_refl _), Nat.sub_self]
    rfl

theorem IsExact.index?_eq_idxOf (h : n.IsExact) {name : String} (hn : name ∈ n.names) :
    n.index? name = some (n.names.idxOf name) := by
  obtain ⟨i, hi⟩ := h.exists_index? hn
  obtain ⟨hlt, rfl⟩ := List.getElem?_eq_some_iff.1 (h.index?_eq_some_iff.1 hi)
  rw [hi, h.nodup.idxOf_getElem]

theorem insert_of_mem (h : n.IsExact) {name : String} (hn : name ∈ n.names) :
    (n.insert name).1 = n := by
  rw [insert, h.index?_eq_idxOf hn]

theorem insert_of_not_mem (h : n.IsExact) {name : String} (hn : name ∉ n.names) :
    (n.insert name).1.names = n.names ++ [name] := by
  have hnone : n.index? name = none :=
    Option.eq_none_iff_forall_ne_some.2 fun i hi => hn (h.mem_of_index? hi)
  rw [insert, hnone]

theorem isExact_insertAll (h : n.IsExact) (names : List String) : (n.insertAll names).IsExact := by
  induction names generalizing n with
  | nil => exact h
  | cons name names ih => exact ih (isExact_insert h name)

theorem prefix_insertAll (n : Numbering) (names : List String) :
    n.names <+: (n.insertAll names).names := by
  induction names generalizing n with
  | nil => exact List.prefix_rfl
  | cons name names ih => exact (prefix_insert n name).trans (ih _)

/-! ## Literals and clauses -/

def code (n : Numbering) (a : SignedAtom) : Literal := ⟨(n.index? a.1).getD 0, a.2⟩

theorem code_eq {a : SignedAtom} {i : Nat} (h : n.index? a.1 = some i) : n.code a = ⟨i, a.2⟩ := by
  rw [code, h, Option.getD_some]

theorem code_of_prefix {m : Numbering} (hm : m.IsExact) (hn : n.IsExact) (h : m.names <+: n.names)
    {a : SignedAtom} (ha : a.1 ∈ m.names) : m.code a = n.code a := by
  obtain ⟨i, hi⟩ := hm.exists_index? ha
  rw [code_eq hi, code_eq (hm.index?_of_prefix hn h hi)]

/-- What numbering signed atoms leaves: an exact numbering that extends the given one and has the
atoms. -/
structure Extends (n n' : Numbering) (as : List SignedAtom) : Prop where
  isExact : n'.IsExact
  isPrefix : n.names <+: n'.names
  mem : ∀ a ∈ as, a.1 ∈ n'.names

theorem extends_literals (h : n.IsExact) (as : List SignedAtom) :
    Extends n (n.literals as).1 as ∧ (n.literals as).2 = as.map (n.literals as).1.code := by
  induction as generalizing n with
  | nil => exact ⟨⟨h, List.prefix_rfl, fun a ha => absurd ha List.not_mem_nil⟩, rfl⟩
  | cons a as ih =>
    have hexact := isExact_insert h a.1
    have hindex := index?_insert h a.1
    obtain ⟨hext, heq⟩ := ih hexact
    have ha : (n.insert a.1).1.code a = (((n.insert a.1).1.literals as).1.code a) :=
      code_of_prefix hexact hext.isExact hext.isPrefix (hexact.mem_of_index? hindex)
    refine ⟨⟨hext.isExact, (prefix_insert n a.1).trans hext.isPrefix, ?_⟩, ?_⟩
    · intro b hb
      rcases List.mem_cons.1 hb with rfl | hb
      · exact hext.isPrefix.subset (hexact.mem_of_index? hindex)
      · exact hext.mem b hb
    · show ⟨(n.insert a.1).2, a.2⟩ :: ((n.insert a.1).1.literals as).2 = _
      rw [List.map_cons, heq, ← code_eq hindex, ha]
      rfl

def encode (n : Numbering) (cs : List (List SignedAtom)) : List Clause :=
  cs.flatMap fun c => (Clause.ofList? (c.map n.code)).toList

theorem encode_of_prefix {m : Numbering} (hm : m.IsExact) (hn : n.IsExact) (h : m.names <+: n.names)
    {cs : List (List SignedAtom)} (hcs : ∀ c ∈ cs, ∀ a ∈ c, a.1 ∈ m.names) :
    m.encode cs = n.encode cs := by
  rw [encode, encode, List.flatMap_def, List.flatMap_def]
  refine congrArg _ (List.map_congr_left fun c hc => ?_)
  rw [List.map_congr_left fun a ha => code_of_prefix hm hn h (hcs c hc a ha)]

theorem extends_clauses (h : n.IsExact) (cs : List (List SignedAtom)) :
    Extends n (n.clauses cs).1 cs.flatten ∧ (n.clauses cs).2 = (n.clauses cs).1.encode cs := by
  induction cs generalizing n with
  | nil => exact ⟨⟨h, List.prefix_rfl, fun a ha => absurd ha List.not_mem_nil⟩, rfl⟩
  | cons c cs ih =>
    obtain ⟨hc, hceq⟩ := extends_literals h c
    obtain ⟨hcs, hcseq⟩ := ih hc.isExact
    have hmap : c.map (n.literals c).1.code = c.map ((n.literals c).1.clauses cs).1.code :=
      List.map_congr_left fun a ha =>
        code_of_prefix hc.isExact hcs.isExact hcs.isPrefix (hc.mem a ha)
    refine ⟨⟨hcs.isExact, hc.isPrefix.trans hcs.isPrefix, ?_⟩, ?_⟩
    · intro a ha
      rcases List.mem_append.1 (List.flatten_cons ▸ ha) with ha | ha
      · exact hcs.isPrefix.subset (hc.mem a ha)
      · exact hcs.mem a ha
    · show (Clause.ofList? (n.literals c).2).toList ++ ((n.literals c).1.clauses cs).2 = _
      rw [hceq, hmap, hcseq]
      rfl

theorem literals_of_mem (h : n.IsExact) {as : List SignedAtom} (has : ∀ a ∈ as, a.1 ∈ n.names) :
    (n.literals as).1 = n := by
  induction as with
  | nil => rfl
  | cons a as ih =>
    obtain ⟨ha, has⟩ := List.forall_mem_cons.1 has
    show ((n.insert a.1).1.literals as).1 = n
    rw [insert_of_mem h ha]
    exact ih has

theorem clauses_of_mem (h : n.IsExact) {cs : List (List SignedAtom)}
    (hcs : ∀ c ∈ cs, ∀ a ∈ c, a.1 ∈ n.names) : (n.clauses cs).1 = n := by
  induction cs with
  | nil => rfl
  | cons c cs ih =>
    obtain ⟨hc, hcs⟩ := List.forall_mem_cons.1 hcs
    show ((n.literals c).1.clauses cs).1 = n
    rw [literals_of_mem h hc]
    exact ih hcs

/-! ## Meaning -/

def Matches (n : Numbering) (a : Assignment) (v : Valuation) : Prop :=
  ∀ name i, n.index? name = some i → a i = v name

def assignment (n : Numbering) (v : Valuation) : Assignment := fun i => (n.name? i).any v

def valuation (n : Numbering) (a : Assignment) : Valuation := fun name => (n.index? name).any a

theorem matches_assignment (h : n.IsExact) (v : Valuation) : n.Matches (n.assignment v) v := by
  intro name i hi
  rw [assignment, h.index?_eq_some_iff.1 hi, Option.any_some]

theorem matches_valuation (n : Numbering) (a : Assignment) : n.Matches a (n.valuation a) := by
  intro name i hi
  rw [valuation, hi, Option.any_some]

variable {a : Assignment} {v : Valuation}

theorem holds_code (h : n.IsExact) (hav : n.Matches a v) {s : SignedAtom} (hs : s.1 ∈ n.names) :
    (n.code s).holds a = s.holds v := by
  obtain ⟨i, hi⟩ := h.exists_index? hs
  rw [code_eq hi, Literal.holds, SignedAtom.holds, hav s.1 i hi]

/-- **Numbered clauses hold under an assignment where their signed atoms hold under a matching
valuation.** -/
theorem all_encode (h : n.IsExact) (hav : n.Matches a v) {cs : List (List SignedAtom)}
    (hcs : ∀ c ∈ cs, ∀ s ∈ c, s.1 ∈ n.names) :
    (n.encode cs).all (·.holds a) = holdAll v cs := by
  induction cs with
  | nil => rfl
  | cons c cs ih =>
    have hc : (c.map n.code).any (·.holds a) = c.any (SignedAtom.holds v) := by
      rw [List.any_map, Bool.eq_iff_iff, List.any_eq_true, List.any_eq_true]
      refine exists_congr fun s => and_congr_right fun hs => ?_
      rw [← holds_code h hav (hcs c List.mem_cons_self s hs)]
      rfl
    have hcons : n.encode (c :: cs) =
        (Clause.ofList? (c.map n.code)).toList ++ n.encode cs := rfl
    rw [hcons, List.all_append, Clause.holds_ofList?, hc,
      ih fun d hd => hcs d (List.mem_cons_of_mem _ hd)]
    rfl

end Numbering

end DefaultLogic.Sat
