import DefaultLogic.Default.Theory
import DefaultLogic.Dialect.Parser

/-!
# Theories built from statements

A theory is built by adding statements, rules and facts in any order.

* `isTracked_ofStatements`, `mem_atoms_ofStatements`: it tracks the atoms of its rules and facts,
  each once, and no others.
* `foldl_tell_iff`: what statements bring about one by one.
* `mem_rules_ofStatements`, `mem_facts_ofStatements`: its rules and facts are those that were told.
* `ofContent_eq_ofStatements`, `content_ofContent`: rules and facts may be told at once.
* `encode_addRule`, `encode_addFact`: **a theory can be encoded while it is built**: the encoding
  of a larger theory adds to the encoding of the smaller one.
-/

namespace DefaultLogic

def Statement.occurrences : Statement → List String
  | .formula f => f.occurrences
  | .rule r => r.occurrences

namespace Theory

def tell (t : Theory) : Statement → Theory
  | .formula f => t.addFact f
  | .rule r => t.addRule r

def ofStatements (ss : List Statement) : Theory := ss.foldl tell {}

/-! ## Tracked atoms -/

private theorem mem_foldl_track {names as : List String} {a : String} :
    a ∈ names.foldl (fun as a => if a ∈ as then as else as ++ [a]) as ↔ a ∈ as ∨ a ∈ names := by
  induction names generalizing as with
  | nil => exact (or_iff_left List.not_mem_nil).symm
  | cons n names ih =>
    rw [List.foldl_cons, ih, List.mem_cons, ← or_assoc]
    refine or_congr_left ?_
    split
    · next hn =>
      refine ⟨Or.inl, ?_⟩
      rintro (ha | rfl)
      · exact ha
      · exact hn
    · rw [List.mem_append, List.mem_singleton]

theorem mem_track {t : Theory} {names : List String} {a : String} :
    a ∈ (t.track names).atoms ↔ a ∈ t.atoms ∨ a ∈ names := mem_foldl_track

theorem nodup_track {t : Theory} (h : t.atoms.Nodup) (names : List String) :
    (t.track names).atoms.Nodup := by
  rw [track]
  generalize t.atoms = as at h
  induction names generalizing as with
  | nil => exact h
  | cons n names ih =>
    refine ih (if n ∈ as then as else as ++ [n]) ?_
    split
    · exact h
    · next hn =>
      rw [List.nodup_append]
      refine ⟨h, List.pairwise_singleton _ n, ?_⟩
      rintro a ha b hb rfl
      exact hn (List.mem_singleton.1 hb ▸ ha)

theorem mem_atoms_tell {t : Theory} {s : Statement} {a : String} :
    a ∈ (t.tell s).atoms ↔ a ∈ t.atoms ∨ a ∈ s.occurrences := by
  cases s with
  | rule r => exact mem_track
  | formula f => exact mem_track

/-- A theory tracks the atoms of its rules and facts, each once. -/
structure IsTracked (t : Theory) : Prop where
  nodup : t.atoms.Nodup
  rules : ∀ r ∈ t.rules, r.occurrences ⊆ t.atoms
  facts : ∀ f ∈ t.facts, f.occurrences ⊆ t.atoms

theorem isTracked_empty : IsTracked {} :=
  ⟨List.nodup_nil, fun _ hr => absurd hr List.not_mem_nil, fun _ hf => absurd hf List.not_mem_nil⟩

theorem isTracked_tell {t : Theory} (h : t.IsTracked) (s : Statement) : (t.tell s).IsTracked := by
  have hold : t.atoms ⊆ (t.tell s).atoms := fun a ha => mem_atoms_tell.2 (.inl ha)
  have hnew : s.occurrences ⊆ (t.tell s).atoms := fun a ha => mem_atoms_tell.2 (.inr ha)
  cases s with
  | rule r =>
    refine ⟨nodup_track h.nodup r.occurrences, ?_, ?_⟩
    · intro q hq
      rcases List.mem_append.1 hq with hq | hq
      · exact List.Subset.trans (h.rules q hq) hold
      · obtain rfl := List.mem_singleton.1 hq
        exact hnew
    · intro f hf
      exact List.Subset.trans (h.facts f hf) hold
  | formula f =>
    refine ⟨nodup_track h.nodup f.occurrences, ?_, ?_⟩
    · intro r hr
      exact List.Subset.trans (h.rules r hr) hold
    · intro g hg
      rcases List.mem_append.1 hg with hg | hg
      · exact List.Subset.trans (h.facts g hg) hold
      · obtain rfl := List.mem_singleton.1 hg
        exact hnew

theorem isTracked_ofStatements (ss : List Statement) : (ofStatements ss).IsTracked := by
  have htell : ∀ t : Theory, t.IsTracked → (ss.foldl tell t).IsTracked := by
    induction ss with
    | nil => exact fun t h => h
    | cons s ss ih => exact fun t h => ih (t.tell s) (isTracked_tell h s)
  exact htell {} isTracked_empty

/-! ## What was told -/

/-- What each statement may bring about holds in the end if it held or some statement brings it
about. -/
theorem foldl_tell_iff {P : Theory → Prop} {Q : Statement → Prop}
    (h : ∀ t s, P (t.tell s) ↔ P t ∨ Q s) (ss : List Statement) (t : Theory) :
    P (ss.foldl tell t) ↔ P t ∨ ∃ s ∈ ss, Q s := by
  induction ss generalizing t with
  | nil => exact (or_iff_left fun ⟨_, hs, _⟩ => List.not_mem_nil hs).symm
  | cons s ss ih =>
    simp only [List.foldl_cons, ih, h, or_assoc, List.mem_cons, exists_eq_or_imp]

theorem mem_atoms_ofStatements {ss : List Statement} {a : String} :
    a ∈ (ofStatements ss).atoms ↔ ∃ s ∈ ss, a ∈ s.occurrences :=
  (foldl_tell_iff (P := fun t => a ∈ t.atoms) (fun _ _ => mem_atoms_tell) ss {}).trans
    (or_iff_right List.not_mem_nil)

theorem forall_mem_atoms_ofStatements {ss : List Statement} {p : String → Prop}
    (h : ∀ s ∈ ss, ∀ a ∈ s.occurrences, p a) : ∀ a ∈ (ofStatements ss).atoms, p a := by
  intro a ha
  obtain ⟨s, hs, has⟩ := mem_atoms_ofStatements.1 ha
  exact h s hs a has

theorem mem_rules_ofStatements {ss : List Statement} {r : Rule} :
    r ∈ (ofStatements ss).rules ↔ .rule r ∈ ss := by
  have htell : ∀ t s, r ∈ (tell t s).rules ↔ r ∈ t.rules ∨ s = .rule r := by
    intro t s
    cases s with
    | formula f => exact (or_iff_left fun h => nomatch h).symm
    | rule q =>
      rw [Statement.rule.injEq, eq_comm]
      exact List.mem_append.trans (or_congr_right List.mem_singleton)
  have hfold := foldl_tell_iff (P := fun t => r ∈ t.rules) htell ss {}
  exact hfold.trans ((or_iff_right List.not_mem_nil).trans exists_eq_right)

theorem mem_facts_ofStatements {ss : List Statement} {f : Formula} :
    f ∈ (ofStatements ss).facts ↔ .formula f ∈ ss := by
  have htell : ∀ t s, f ∈ (tell t s).facts ↔ f ∈ t.facts ∨ s = .formula f := by
    intro t s
    cases s with
    | rule r => exact (or_iff_left fun h => nomatch h).symm
    | formula g =>
      rw [Statement.formula.injEq, eq_comm]
      exact List.mem_append.trans (or_congr_right List.mem_singleton)
  have hfold := foldl_tell_iff (P := fun t => f ∈ t.facts) htell ss {}
  exact hfold.trans ((or_iff_right List.not_mem_nil).trans exists_eq_right)

/-! ## Rules and facts at once -/

theorem extend_eq_foldl_tell (t : Theory) (rules : List Rule) (facts : List Formula) :
    t.extend rules facts =
      (rules.map Statement.rule ++ facts.map Statement.formula).foldl tell t := by
  rw [List.foldl_append, List.foldl_map, List.foldl_map]
  rfl

theorem content_extend (t : Theory) (rules : List Rule) (facts : List Formula) :
    (t.extend rules facts).rules = t.rules ++ rules ∧
      (t.extend rules facts).facts = t.facts ++ facts := by
  have hfacts : ∀ t : Theory, (facts.foldl addFact t).rules = t.rules ∧
      (facts.foldl addFact t).facts = t.facts ++ facts := by
    induction facts with
    | nil => exact fun t => ⟨rfl, (List.append_nil t.facts).symm⟩
    | cons f facts ih =>
      intro t
      rw [List.foldl_cons, (ih _).1, (ih _).2, List.append_cons]
      exact ⟨rfl, rfl⟩
  have hrules : ∀ t : Theory, (rules.foldl addRule t).rules = t.rules ++ rules ∧
      (rules.foldl addRule t).facts = t.facts := by
    induction rules with
    | nil => exact fun t => ⟨(List.append_nil t.rules).symm, rfl⟩
    | cons r rules ih =>
      intro t
      rw [List.foldl_cons, (ih _).1, (ih _).2, List.append_cons]
      exact ⟨rfl, rfl⟩
  rw [extend, (hfacts _).1, (hfacts _).2, (hrules _).1, (hrules _).2]
  exact ⟨rfl, rfl⟩

theorem ofContent_eq_ofStatements (rules : List Rule) (facts : List Formula) :
    ofContent rules facts = ofStatements (rules.map .rule ++ facts.map .formula) :=
  extend_eq_foldl_tell {} rules facts

theorem content_ofContent (rules : List Rule) (facts : List Formula) :
    (ofContent rules facts).rules = rules ∧ (ofContent rules facts).facts = facts :=
  content_extend {} rules facts

end Theory

/-! ## Encodings -/

namespace Encoding

variable {T : Type} [GroundLogic T] (e : Encoding T)

theorem encode_addRule (t : Theory) (r : Rule) :
    e.encode (t.addRule r).rules (t.addRule r).facts =
      (e.encode t.rules t.facts).addRule (r.map e.transform) := by
  show (⟨(t.rules ++ [r]).map _, _⟩ : DefaultTheory T) = _
  rw [List.map_append]
  rfl

theorem encode_addFact (t : Theory) (f : Formula) :
    e.encode (t.addFact f).rules (t.addFact f).facts =
      (e.encode t.rules t.facts).addFact (e.transform f) := by
  show (⟨_, GroundLogic.addAll e.empty ((t.facts ++ [f]).map _)⟩ : DefaultTheory T) = _
  rw [List.map_append, GroundLogic.addAll, List.foldl_append]
  rfl

end Encoding

end DefaultLogic
