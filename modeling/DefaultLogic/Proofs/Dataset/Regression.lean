import DefaultLogic.Dataset.Forest
import DefaultLogic.Dataset.Regression
import DefaultLogic.Proofs.Default.Answers
import DefaultLogic.Proofs.Default.Reordering

/-!
# What a test checks

A test goes through the theories of a dataset with their additions, each on top of the theory it
belongs to, and ends at the first check that is not passed.  Which theory that is does not depend on
how far the test got: it has the rules and facts on the way to its node, and no others.

* `Spec.mem_nodesOf_iff_liesIn`, `Spec.pairwise_nodesOf`: the nodes of a forest are listed in the
  order of their paths, each once.
* `Check.failure?_eq_none_iff`: a check fails if it is not passed.
* `Check.passes_expectation_iff`: an expectation is passed if it holds of Reiter's extensions.
* `Spec.load_eq`, `Expectation.value_check`: loading and testing end at the first check that fails.
* `Spec.value_check_within`: **so does the test of a spec with its additions.**
* `Node.sameContent_told`: the theory that is tested has the rules and facts on the way to it.
* `Dataset.check_iff_passes`: **a dataset passes if every node passes every check; or else the test
  ends with the first failure in the order of the nodes.**
-/

namespace DefaultLogic

open DefaultLogic.Sat

/-! ## Nodes of a forest -/

namespace Spec

/-- Induction on specs, with the hypothesis for each addition. -/
@[elab_as_elim]
theorem induction {motive : Spec → Prop}
    (step : ∀ s : Spec, (∀ c ∈ s.additions, motive c) → motive s) (s : Spec) : motive s :=
  @Spec.rec motive (fun ss => ∀ c ∈ ss, motive c) (fun _ _ _ _ _ _ _ _ h => step _ h)
    (fun _ h => absurd h List.not_mem_nil)
    (fun _ _ hs hss _ h => (List.mem_cons.1 h).elim (fun e => e ▸ hs) (hss _)) s

variable {index : Nat} {s : Spec} {ss : List Spec} {n : Node}

theorem nodes_eq (index : Nat) (s : Spec) :
    s.nodes index = ⟨[index], [], s⟩ :: (nodesOf 0 s.additions).map (Node.under index s) := by
  cases s
  rw [nodes]

theorem mem_nodes_iff :
    n ∈ s.nodes index ↔
      n = ⟨[index], [], s⟩ ∨ ∃ m ∈ nodesOf 0 s.additions, m.under index s = n := by
  rw [nodes_eq, List.mem_cons, List.mem_map]

theorem mem_nodesOf_iff :
    n ∈ nodesOf index ss ↔ ∃ (i : Nat) (s : Spec), ss[i]? = some s ∧ n ∈ s.nodes (index + i) := by
  induction ss generalizing index with
  | nil => simp [nodesOf]
  | cons s ss ih =>
    rw [nodesOf, List.mem_append, ih]
    constructor
    · rintro (hn | ⟨i, c, hc, hn⟩)
      · exact ⟨0, s, rfl, hn⟩
      · exact ⟨i + 1, c, hc, by rwa [Nat.add_right_comm] at hn⟩
    · rintro ⟨_ | i, c, hc, hn⟩
      · cases hc
        exact .inl hn
      · exact .inr ⟨i, c, hc, by rwa [Nat.add_right_comm]⟩

theorem liesIn_of_mem_nodes {forest : List Spec} (hs : forest[index]? = some s)
    (hn : n ∈ s.nodes index) : n.LiesIn forest := by
  induction s using Spec.induction generalizing index n forest with
  | step s ih =>
    rcases mem_nodes_iff.1 hn with rfl | ⟨m, hm, rfl⟩
    · exact .root hs
    · obtain ⟨i, c, hc, hm⟩ := mem_nodesOf_iff.1 hm
      rw [Nat.zero_add] at hm
      exact .addition hs (ih c (List.mem_of_getElem? hc) hc hm)

/-- **The nodes of a forest are listed.** -/
theorem mem_nodesOf_iff_liesIn {forest : List Spec} : n ∈ nodesOf 0 forest ↔ n.LiesIn forest := by
  constructor
  · intro hn
    obtain ⟨i, s, hs, hn⟩ := mem_nodesOf_iff.1 hn
    rw [Nat.zero_add] at hn
    exact liesIn_of_mem_nodes hs hn
  · intro hn
    induction hn with
    | @root forest index s hs =>
      exact mem_nodesOf_iff.2 ⟨index, s, hs, mem_nodes_iff.2 (.inl (by rw [Nat.zero_add]))⟩
    | @addition forest index s n hs _ ih =>
      exact mem_nodesOf_iff.2 ⟨index, s, hs, mem_nodes_iff.2 (.inr ⟨n, ih, by rw [Nat.zero_add]⟩)⟩

theorem exists_path_eq_cons (hn : n ∈ s.nodes index) : ∃ path, n.path = index :: path := by
  rcases mem_nodes_iff.1 hn with rfl | ⟨m, -, rfl⟩
  · exact ⟨[], rfl⟩
  · exact ⟨m.path, rfl⟩

theorem exists_path_of_mem_nodesOf (hn : n ∈ nodesOf index ss) :
    ∃ i path, n.path = i :: path ∧ index ≤ i := by
  obtain ⟨i, s, -, hn⟩ := mem_nodesOf_iff.1 hn
  obtain ⟨path, hpath⟩ := exists_path_eq_cons hn
  exact ⟨index + i, path, hpath, Nat.le_add_right index i⟩

theorem pairwise_nodesOf_of
    (h : ∀ s ∈ ss, ∀ index, (s.nodes index).Pairwise fun m n => m.path < n.path) (index : Nat) :
    (nodesOf index ss).Pairwise fun m n => m.path < n.path := by
  induction ss generalizing index with
  | nil => exact List.Pairwise.nil
  | cons s ss ih =>
    obtain ⟨hs, hss⟩ := List.forall_mem_cons.1 h
    refine List.pairwise_append.2 ⟨hs index, ih hss (index + 1), fun m hm n hn => ?_⟩
    obtain ⟨p, hp⟩ := exists_path_eq_cons hm
    obtain ⟨i, q, hq, hi⟩ := exists_path_of_mem_nodesOf hn
    rw [hp, hq, List.cons_lt_cons_iff]
    exact .inl hi

theorem pairwise_nodes (s : Spec) (index : Nat) :
    (s.nodes index).Pairwise fun m n => m.path < n.path := by
  induction s using Spec.induction generalizing index with
  | step s ih =>
    rw [nodes_eq, List.pairwise_cons, List.pairwise_map]
    constructor
    · intro n hn
      obtain ⟨m, hm, rfl⟩ := List.mem_map.1 hn
      obtain ⟨i, path, hpath, -⟩ := exists_path_of_mem_nodesOf hm
      show [index] < index :: m.path
      rw [List.cons_lt_cons_self, hpath]
      exact List.nil_lt_cons i path
    · refine (pairwise_nodesOf_of ih 0).imp fun h => ?_
      exact List.cons_lt_cons_self.2 h

/-- **The nodes are listed in the order of their paths**, in which a path comes before those that go
on from it. -/
theorem pairwise_nodesOf (index : Nat) (ss : List Spec) :
    (nodesOf index ss).Pairwise fun m n => m.path < n.path :=
  pairwise_nodesOf_of (fun s _ => s.pairwise_nodes) index

end Spec

/-! ## Checks -/

namespace Check

variable {d : Dialect} {k : Kind} {t t' : Theory}

theorem textFailure?_eq_none_iff {text : String} :
    textFailure? d text = none ↔ ∃ f, d.parse text = .ok (.formula f) := by
  rw [textFailure?]
  split
  · next f hf => exact iff_of_true rfl ⟨f, hf⟩
  · next r hr => exact iff_of_false nofun fun ⟨f, hf⟩ => by cases hr.symm.trans hf
  · next e he => exact iff_of_false nofun fun ⟨f, hf⟩ => by cases he.symm.trans hf

/-- **A check fails exactly if it is not passed.** -/
theorem failure?_eq_none_iff (c : Check) : c.failure? d k t = none ↔ c.Passes d k t := by
  cases c with
  | rule index text =>
    rw [failure?, Passes]
    split
    · next r hr => exact iff_of_true rfl ⟨r, hr⟩
    · next f hf => exact iff_of_false nofun fun ⟨r, hr⟩ => by cases hf.symm.trans hr
    · next e he => exact iff_of_false nofun fun ⟨r, hr⟩ => by cases he.symm.trans hr
  | fact index text => rw [failure?, Passes, Option.map_eq_none_iff, textFailure?_eq_none_iff]
  | expectation e =>
    cases e with
    | count n => exact ite_eq_left_iff.trans (by simp [Passes])
    | entailment mode positive text =>
      rw [failure?, Passes]
      split
      · next f hf =>
        simp only [hf, Except.ok.injEq, Statement.formula.injEq, exists_eq_left']
        simp
      · next hno =>
        rw [textFailure?_eq_none_iff]
        exact ⟨fun ⟨f, hf⟩ => absurd hf (hno f), fun ⟨f, hf, _⟩ => absurd hf (hno f)⟩

theorem failure?_congr (hplain : t.plain = t'.plain)
    (hcount : (t.count solve k).value = (t'.count solve k).value)
    (hentails : ∀ mode f, (t.entails solve mode f k).value = (t'.entails solve mode f k).value)
    (c : Check) :
    c.failure? d k t = c.failure? d k t' := by
  rw [Theory.count, Theory.count, Logged.value_map, Logged.value_map] at hcount
  cases c with
  | rule | fact => rfl
  | expectation e =>
    cases e with
    | count n => rw [failure?, failure?, hplain, hcount]
    | entailment mode positive text => simp only [failure?, hplain, hentails]

end Check

/-- What is expected of the extensions in Reiter's sense. -/
def Expectation.Holds (d : Dialect) (k : Kind) (t : Theory) : Expectation → Prop
  | .count n => Set.ncard {p | t.IsOutcome [] k p} = n
  | .entailment mode positive text =>
    ∃ f, d.parse text = .ok (.formula f) ∧
      (mode.Over (t.IsOutcome f.atoms k) (fun p => p.2 (k.read p.1 f)) ↔ positive = true)

/-- **An expectation is passed if it holds of Reiter's extensions.** -/
theorem Check.passes_expectation_iff {d : Dialect} {k : Kind} {t : Theory} (ht : t.IsTracked)
    (e : Expectation) : (Check.expectation e).Passes d k t ↔ e.Holds d k t := by
  cases e with
  | count n => rw [Passes, Expectation.Holds, Theory.length_extensions_eq_ncard solve_decides ht]
  | entailment mode positive text =>
    refine exists_congr fun f => and_congr_right fun _ => ?_
    rw [Bool.eq_iff_iff, Theory.entails_iff_over solve_decides ht]

/-! ## The first failure -/

/-- What comes of checks that are made one after the other: the first failure, or a result. -/
def settled {α : Type} (failure? : Option Failure) (a : α) : Except Failure α :=
  match failure? with
  | some e => .error e
  | none => .ok a

section

variable {α β : Type} {e? e'? : Option Failure} {e : Failure} {a c : α} {b : β}

theorem settled_bind {f : α → Except Failure β} (h : f a = settled e'? b) :
    settled e? a >>= f = settled (e?.or e'?) b := by
  cases e? with
  | some e => rfl
  | none => exact h

theorem settled_bind_pure (g : α → β) :
    (settled e? a >>= fun a => pure (g a)) = settled e? (g a) := by
  cases e? <;> rfl

theorem mapError_settled (f : Failure → Failure) :
    (settled e? a).mapError f = settled (e?.map f) a := by
  cases e? <;> rfl

theorem settled_eq_ok_iff : settled e? a = .ok c ↔ e? = none ∧ c = a := by
  cases e? with
  | some e => exact iff_of_false nofun fun h => nomatch h.1
  | none => rw [settled, Except.ok.injEq, eq_comm, and_iff_right rfl]

theorem settled_eq_error_iff : settled e? a = .error e ↔ e? = some e := by
  cases e? with
  | some e' => rw [settled, Except.error.injEq, Option.some_inj]
  | none => exact iff_of_false nofun nofun

end

def failureOf {α : Type} : Except Failure α → Option Failure
  | .ok _ => none
  | .error e => some e

theorem findSome?_flatMap {α β γ : Type} (xs : List α) (f : α → List β) (g : β → Option γ) :
    (xs.flatMap f).findSome? g = xs.findSome? fun x => (f x).findSome? g := by
  induction xs with
  | nil => rfl
  | cons x xs ih =>
    rw [List.flatMap_cons, List.findSome?_append, List.findSome?_cons, ih]
    cases (f x).findSome? g <;> rfl

/-! ## Reading -/

namespace Check

variable (d : Dialect) (k : Kind) (t : Theory)

theorem failure?_rule (index : Nat) (text : String) :
    (rule index text).failure? d k t =
      (failureOf (d.readRule text)).map (Failure.within (.rule index)) := by
  rw [failure?, Dialect.readRule, Dialect.read]
  cases d.parse text with
  | error e => rfl
  | ok s => cases s <;> rfl

theorem textFailure?_eq (text : String) : textFailure? d text = failureOf (d.readFormula text) := by
  rw [textFailure?, Dialect.readFormula, Dialect.read]
  cases d.parse text with
  | error e => rfl
  | ok s => cases s <;> rfl

end Check

namespace Spec

theorem readEach_eq {α : Type} (read : String → Except Failure α) (context : Nat → Context)
    (texts : List String) :
    readEach read context texts =
      settled (texts.zipIdx.findSome? fun p =>
          (failureOf (read p.1)).map (Failure.within (context p.2)))
        (texts.filterMap fun text => (read text).toOption) := by
  have hfrom : ∀ n, ((texts.zipIdx n).mapM fun p =>
      (read p.1).mapError (Failure.within (context p.2))) =
      settled ((texts.zipIdx n).findSome? fun p =>
          (failureOf (read p.1)).map (Failure.within (context p.2)))
        (texts.filterMap fun text => (read text).toOption) := by
    induction texts with
    | nil => exact fun _ => rfl
    | cons text texts ih =>
      intro n
      rw [List.zipIdx_cons, List.mapM_cons, List.findSome?_cons, List.filterMap_cons, ih]
      cases read text with
      | error e => rfl
      | ok a =>
        exact settled_bind_pure (List.cons a)
  exact hfrom 0

/-- **Loading ends at the first text that cannot be read.** -/
theorem load_eq (d : Dialect) (k : Kind) (t : Theory) (s : Spec) :
    s.load d =
      settled (s.textChecks.findSome? (Check.failure? d k t))
        (.ofContent (s.rulesIn d) (s.factsIn d)) := by
  have hrules : (fun p : String × Nat => (Check.rule p.2 p.1).failure? d k t) = fun p =>
      (failureOf (d.readRule p.1)).map (Failure.within (.rule p.2)) :=
    funext fun p => Check.failure?_rule d k t p.2 p.1
  have hfacts : (fun p : String × Nat => (Check.fact p.2 p.1).failure? d k t) = fun p =>
      (failureOf (d.readFormula p.1)).map (Failure.within (.fact p.2)) :=
    funext fun p => by rw [Check.failure?, Check.textFailure?_eq]
  have hchecks : s.textChecks.findSome? (Check.failure? d k t) =
      (s.rules.zipIdx.findSome? fun p =>
          (failureOf (d.readRule p.1)).map (Failure.within (.rule p.2))).or
        (s.facts.zipIdx.findSome? fun p =>
          (failureOf (d.readFormula p.1)).map (Failure.within (.fact p.2))) := by
    rw [textChecks, List.findSome?_append, List.findSome?_map, List.findSome?_map]
    exact congrArg₂ Option.or (congrArg (s.rules.zipIdx.findSome? ·) hrules)
      (congrArg (s.facts.zipIdx.findSome? ·) hfacts)
  rw [load, readEach_eq, readEach_eq, hchecks]
  exact settled_bind (settled_bind_pure (Theory.ofContent (s.rulesIn d)))

end Spec

/-! ## Expectations -/

section

variable (d : Dialect) (k : Kind) (t : Theory)

theorem Theory.value_count :
    (t.count solve k).value = (t.extensions solve k).value.length := by
  rw [count, Logged.value_map]

/-- **An expectation is tested as it is checked.** -/
theorem Expectation.value_check (e : Expectation) :
    (check d k t e).run.value = settled ((Check.expectation e).failure? d k t) () := by
  cases e with
  | count n =>
    show (if (t.count solve k).value ≠ n then _ else _ : Attempt Unit).run.value = _
    rw [Theory.value_count, Check.failure?]
    by_cases hfound : (t.extensions solve k).value.length = n
    · rw [if_neg (not_not.2 hfound), if_pos hfound]
      rfl
    · rw [if_pos hfound, if_neg hfound]
      rfl
  | entailment mode positive text =>
    rw [check, Attempt.value_bind, Theory.value_ask_entailment, Theory.formulaOf, Check.failure?,
      Check.textFailure?, Dialect.readFormula, Dialect.read]
    cases d.parse text with
    | error e => rfl
    | ok s =>
      cases s with
      | rule r => rfl
      | formula f =>
        show (if Reply.truth ((t.entails solve mode f k).value == positive) = .truth false then _
          else _ : Attempt Unit).run.value = _
        dsimp only
        by_cases h : (t.entails solve mode f k).value = positive
        · rw [if_pos h, if_neg (by simp [h])]
          rfl
        · rw [if_neg h, if_pos (by simp [h])]
          rfl

theorem Expectation.value_forM_check (es : List Expectation) :
    (es.forM (check d k t)).run.value =
      settled ((es.map .expectation).findSome? (Check.failure? d k t)) () := by
  induction es with
  | nil => rfl
  | cons e es ih =>
    show (check d k t e >>= fun _ => es.forM (check d k t)).run.value = _
    rw [Attempt.value_bind, value_check, List.map_cons, List.findSome?_cons]
    refine (settled_bind (f := fun _ => (es.forM (check d k t)).run.value) ih).trans ?_
    cases (Check.expectation e).failure? d k t <;> rfl

end

/-! ## Theories on the way -/

namespace Spec

variable {d : Dialect}

/-- The theory that specs describe when each extends what those before it describe. -/
def told (d : Dialect) (ss : List Spec) : Theory :=
  ss.foldl (fun t s => t.extend (s.rulesIn d) (s.factsIn d)) {}

theorem told_concat (ss : List Spec) (s : Spec) :
    told d (ss ++ [s]) = (told d ss).extend (s.rulesIn d) (s.factsIn d) := by
  rw [told, List.foldl_append]
  rfl

theorem content_told (ss : List Spec) :
    (told d ss).rules = ss.flatMap (rulesIn d) ∧ (told d ss).facts = ss.flatMap (factsIn d) := by
  induction ss using List.reverseRecOn with
  | nil => exact ⟨rfl, rfl⟩
  | append_singleton ss s ih =>
    obtain ⟨hrules, hfacts⟩ := Theory.content_extend (told d ss) (s.rulesIn d) (s.factsIn d)
    rw [told_concat, hrules, hfacts, ih.1, ih.2, List.flatMap_append, List.flatMap_append,
      List.flatMap_singleton, List.flatMap_singleton]
    exact ⟨rfl, rfl⟩

theorem told_eq_ofStatements (ss : List Spec) :
    told d ss = .ofStatements
      (ss.flatMap fun s => (s.rulesIn d).map .rule ++ (s.factsIn d).map .formula) := by
  induction ss using List.reverseRecOn with
  | nil => rfl
  | append_singleton ss s ih =>
    rw [told_concat, ih, Theory.extend_eq_foldl_tell, List.flatMap_append, List.flatMap_singleton]
    exact List.foldl_append.symm

end Spec

namespace Node

variable {d : Dialect} {k : Kind}

/-- **The theory that is tested has the rules and facts on the way to the node**, told in some
order. -/
theorem sameContent_told (n : Node) : Theory.SameContent (Spec.told d n.specs) (n.theory d) := by
  rw [Spec.told_eq_ofStatements, theory, Theory.ofContent_eq_ofStatements]
  refine Theory.sameContent_ofStatements fun s => ?_
  simp only [List.mem_flatMap, List.mem_append, List.mem_map]
  grind

/-- **What is expected of a node is tested of Reiter's extensions** of the theory on the way to
it. -/
theorem passes_expectation_iff (n : Node) (e : Expectation) :
    (Check.expectation e).Passes d k (n.theory d) ↔ e.Holds d k (n.theory d) :=
  Check.passes_expectation_iff n.sameContent_told.isTracked' e

theorem failure?_told (n : Node) (c : Check) :
    c.failure? d k (Spec.told d n.specs) = c.failure? d k (n.theory d) := by
  have hsame := n.sameContent_told (d := d)
  have hplain : (Spec.told d n.specs).plain = (n.theory d).plain := by
    have htold := Spec.content_told (d := d) n.specs
    have htheory := Theory.content_ofContent (n.specs.flatMap (Spec.rulesIn d))
      (n.specs.flatMap (Spec.factsIn d))
    rw [Theory.plain, Theory.plain, htold.1, htold.2, theory, htheory.1, htheory.2]
  exact Check.failure?_congr hplain (hsame.count_eq solve_decides k)
    (fun mode f => hsame.entails_eq solve_decides mode f k) c

/-- The first failure of a node, if it has one, when the specs above its root are told first. -/
def failure? (d : Dialect) (k : Kind) (root : Nat → Context) (above : List Spec) (n : Node) :
    Option Failure :=
  (n.spec.checks.findSome? (Check.failure? d k (Spec.told d (above ++ n.specs)))).map
    (Failure.withinAll (contexts root n.path))

theorem failure?_under (root : Nat → Context) (above : List Spec) (index : Nat) (s : Spec)
    (n : Node) :
    (n.under index s).failure? d k root above =
      (n.failure? d k .addition (above ++ [s])).map (Failure.within (root index)) := by
  have hspecs : above ++ (n.under index s).specs = above ++ [s] ++ n.specs := by
    rw [List.append_assoc]
    rfl
  have hcontexts : contexts .addition n.path = n.path.map .addition := by
    cases n.path <;> rfl
  rw [failure?, failure?, hspecs, hcontexts, Option.map_map]
  rfl

end Node

/-! ## Tests -/

/-- What is counted when all checks of some nodes are passed. -/
def Tally.ofNodes (ns : List Node) : Tally :=
  ⟨ns.length, (ns.map fun n => n.spec.expectations.length).sum⟩

theorem Tally.ofNodes_append (ms ns : List Node) :
    ofNodes (ms ++ ns) = (ofNodes ms).add (ofNodes ns) := by
  simp [ofNodes, add]

namespace Spec

variable {d : Dialect} {k : Kind} {ss : List Spec} {s : Spec}

theorem check_eq (t : Theory) (s : Spec) :
    check d k t s = (do
      let own ← s.load d
      let t := t.extend own.rules own.facts
      Attempt.log (.testing t.plain)
      s.expectations.forM (Expectation.check d k t)
      let more ← checkEach d k .addition t 0 s.additions
      return Tally.add ⟨1, s.expectations.length⟩ more) := by
  cases s
  rw [check]

theorem value_checkEach_of {root : Nat → Context} (above : List Spec)
    (h : ∀ s ∈ ss, ∀ index,
      (Attempt.within (root index) (check d k (told d above) s)).run.value =
        settled ((s.nodes index).findSome? (Node.failure? d k root above))
          (.ofNodes (s.nodes index))) (index : Nat) :
    (checkEach d k root (told d above) index ss).run.value =
      settled ((nodesOf index ss).findSome? (Node.failure? d k root above))
        (.ofNodes (nodesOf index ss)) := by
  induction ss generalizing index with
  | nil => rfl
  | cons s ss ih =>
    obtain ⟨hs, hss⟩ := List.forall_mem_cons.1 h
    have hmore : (do
        let more ← checkEach d k root (told d above) (index + 1) ss
        return (Tally.ofNodes (s.nodes index)).add more : Attempt Tally).run.value =
          settled ((nodesOf (index + 1) ss).findSome? (Node.failure? d k root above))
            (.ofNodes (nodesOf index (s :: ss))) := by
      rw [Attempt.value_bind, ih hss (index + 1), nodesOf, Tally.ofNodes_append]
      exact settled_bind_pure (Tally.ofNodes (s.nodes index)).add
    have happend : (nodesOf index (s :: ss)).findSome? (Node.failure? d k root above) =
        ((s.nodes index).findSome? (Node.failure? d k root above)).or
          ((nodesOf (index + 1) ss).findSome? (Node.failure? d k root above)) := by
      rw [nodesOf, List.findSome?_append]
    rw [checkEach, Attempt.value_bind, hs index, happend]
    exact settled_bind hmore

theorem findSome?_nodes (root : Nat → Context) (above : List Spec) (index : Nat) (s : Spec) :
    (s.nodes index).findSome? (Node.failure? d k root above) =
      ((s.checks.findSome? (Check.failure? d k (told d (above ++ [s])))).or
        ((nodesOf 0 s.additions).findSome? (Node.failure? d k .addition (above ++ [s])))).map
          (Failure.within (root index)) := by
  have hrest : ((nodesOf 0 s.additions).map (Node.under index s)).findSome?
      (Node.failure? d k root above) =
      ((nodesOf 0 s.additions).findSome? (Node.failure? d k .addition (above ++ [s]))).map
        (Failure.within (root index)) := by
    rw [List.findSome?_map, List.map_findSome?]
    exact congrArg (List.findSome? · _) (funext (Node.failure?_under root above index s))
  have hroot : Node.failure? d k root above ⟨[index], [], s⟩ =
      (s.checks.findSome? (Check.failure? d k (told d (above ++ [s])))).map
        (Failure.within (root index)) := rfl
  rw [nodes_eq, List.findSome?_cons, hrest, hroot]
  cases s.checks.findSome? (Check.failure? d k (told d (above ++ [s]))) <;> rfl

theorem ofNodes_nodes (index : Nat) (s : Spec) :
    Tally.ofNodes (s.nodes index) =
      Tally.add ⟨1, s.expectations.length⟩ (.ofNodes (nodesOf 0 s.additions)) := by
  rw [nodes_eq, ← List.singleton_append, Tally.ofNodes_append]
  congr 1
  simp [Tally.ofNodes, Node.under, Function.comp_def]

/-- **A spec is tested until the first failure of a node**, its own checks coming before those of
its additions. -/
theorem value_check_within (s : Spec) (root : Nat → Context) (above : List Spec) (index : Nat) :
    (Attempt.within (root index) (check d k (told d above) s)).run.value =
      settled ((s.nodes index).findSome? (Node.failure? d k root above))
        (.ofNodes (s.nodes index)) := by
  induction s using Spec.induction generalizing root above index with
  | step s ih =>
    let t := told d (above ++ [s])
    let more := nodesOf 0 s.additions
    have hadditions : (checkEach d k .addition t 0 s.additions).run.value =
        settled (more.findSome? (Node.failure? d k .addition (above ++ [s]))) (.ofNodes more) :=
      value_checkEach_of (above ++ [s]) (fun c hc index => ih c hc .addition (above ++ [s]) index) 0
    have hload : s.load d = settled (s.textChecks.findSome? (Check.failure? d k t))
        (.ofContent (s.rulesIn d) (s.factsIn d)) := s.load_eq d k t
    have hextend : (told d above).extend (Theory.ofContent (s.rulesIn d) (s.factsIn d)).rules
        (Theory.ofContent (s.rulesIn d) (s.factsIn d)).facts = t := by
      obtain ⟨hrules, hfacts⟩ := Theory.content_ofContent (s.rulesIn d) (s.factsIn d)
      rw [hrules, hfacts]
      exact (told_concat above s).symm
    have hchecks : s.checks.findSome? (Check.failure? d k t) =
        (s.textChecks.findSome? (Check.failure? d k t)).or
          ((s.expectations.map .expectation).findSome? (Check.failure? d k t)) :=
      List.findSome?_append
    have htested : (do
        Attempt.log (.testing t.plain)
        s.expectations.forM (Expectation.check d k t)
        let more ← checkEach d k .addition t 0 s.additions
        return Tally.add ⟨1, s.expectations.length⟩ more : Attempt Tally).run.value =
          settled (((s.expectations.map .expectation).findSome? (Check.failure? d k t)).or
              (more.findSome? (Node.failure? d k .addition (above ++ [s]))))
            (.ofNodes (s.nodes index)) := by
      have hmore : (do
          let more ← checkEach d k .addition t 0 s.additions
          return Tally.add ⟨1, s.expectations.length⟩ more : Attempt Tally).run.value =
            settled (more.findSome? (Node.failure? d k .addition (above ++ [s])))
              (.ofNodes (s.nodes index)) := by
        rw [Attempt.value_bind, hadditions, ofNodes_nodes]
        exact settled_bind_pure (Tally.add ⟨1, s.expectations.length⟩)
      rw [Attempt.value_bind, Attempt.value_log]
      show (_ >>= _ : Attempt Tally).run.value = _
      rw [Attempt.value_bind, Expectation.value_forM_check]
      exact settled_bind hmore
    rw [Attempt.value_within, check_eq, Attempt.value_bind]
    show Except.mapError _ (s.load d >>= _) = _
    rw [hload, settled_bind (by rw [hextend]; exact htested), mapError_settled, findSome?_nodes,
      hchecks, Option.or_assoc]

end Spec

namespace Dataset

def failureAt? (s : Dataset) (p : Node × Check) : Option Failure :=
  (p.2.failure? s.dialect s.kind (p.1.theory s.dialect)).map
    (Failure.withinAll (Node.contexts .theory p.1.path))

theorem failureAt?_eq_none_iff {s : Dataset} {p : Node × Check} :
    s.failureAt? p = none ↔ p.2.Passes s.dialect s.kind (p.1.theory s.dialect) := by
  rw [failureAt?, Option.map_eq_none_iff, Check.failure?_eq_none_iff]

/-- **A dataset is tested until the first failure.** -/
theorem value_check (s : Dataset) :
    s.check.run.value = settled (s.checks.findSome? s.failureAt?) (.ofNodes s.nodes) := by
  have hnode (n : Node) : n.failure? s.dialect s.kind .theory [] =
      (n.spec.checks.map (n, ·)).findSome? s.failureAt? := by
    have htold : Check.failure? s.dialect s.kind (Spec.told s.dialect n.specs) =
        Check.failure? s.dialect s.kind (n.theory s.dialect) := funext n.failure?_told
    rw [Node.failure?, List.nil_append, htold, List.map_findSome?, List.findSome?_map]
    rfl
  have hnodes : Node.failure? s.dialect s.kind .theory [] = fun n =>
      (n.spec.checks.map (n, ·)).findSome? s.failureAt? := funext hnode
  rw [checks, findSome?_flatMap, ← hnodes]
  exact Spec.value_checkEach_of [] (fun c _ index => c.value_check_within .theory [] index) 0

/-- **A test checks exactly what the specs say.**  Its nodes are those of the forest of the
theories, in the order of their paths.  It succeeds exactly if every node passes each of its checks
with the theory that has the rules and facts on the way to it; then the nodes and their expectations
were counted.  Otherwise it fails as the first check does that is not passed, in the contexts of the
path to its node. -/
theorem check_iff_passes (s : Dataset) :
    (∀ n, n ∈ s.nodes ↔ Node.LiesIn s.theories n) ∧
      s.nodes.Pairwise (fun m n => m.path < n.path) ∧
      (∀ tally, s.check.run.value = .ok tally ↔
        (∀ n, Node.LiesIn s.theories n → ∀ c ∈ n.spec.checks,
          Check.Passes s.dialect s.kind (n.theory s.dialect) c) ∧
        tally.theories = s.nodes.length ∧
        tally.expectations = (s.nodes.map fun n => n.spec.expectations.length).sum) ∧
      ∀ e, s.check.run.value = .error e ↔
        ∃ before n c after f, s.checks = before ++ (n, c) :: after ∧
          (∀ p ∈ before, Check.Passes s.dialect s.kind (p.1.theory s.dialect) p.2) ∧
          Check.failure? s.dialect s.kind (n.theory s.dialect) c = some f ∧
          e = f.withinAll (Node.contexts .theory n.path) := by
  have hnodes : ∀ n, n ∈ s.nodes ↔ Node.LiesIn s.theories n := fun n => Spec.mem_nodesOf_iff_liesIn
  refine ⟨hnodes, Spec.pairwise_nodesOf 0 s.theories, fun tally => ?_, fun e => ?_⟩
  · have hpassed : s.checks.findSome? s.failureAt? = none ↔
        ∀ n, Node.LiesIn s.theories n → ∀ c ∈ n.spec.checks,
          Check.Passes s.dialect s.kind (n.theory s.dialect) c := by
      rw [List.findSome?_eq_none_iff, checks, List.forall_mem_flatMap]
      refine forall_congr' fun n => imp_congr (hnodes n) ?_
      rw [List.forall_mem_map]
      exact forall₂_congr fun c _ => failureAt?_eq_none_iff
    have htally : tally = .ofNodes s.nodes ↔ tally.theories = s.nodes.length ∧
        tally.expectations = (s.nodes.map fun n => n.spec.expectations.length).sum := by
      obtain ⟨theories, expectations⟩ := tally
      exact Tally.mk.injEq .. ▸ Iff.rfl
    rw [value_check, settled_eq_ok_iff, hpassed, htally]
  · rw [value_check, settled_eq_error_iff, List.findSome?_eq_some_iff]
    constructor
    · rintro ⟨before, ⟨n, c⟩, after, hchecks, hfailure, hbefore⟩
      obtain ⟨f, hf, rfl⟩ := Option.map_eq_some_iff.1 hfailure
      exact ⟨before, n, c, after, f, hchecks,
        fun p hp => failureAt?_eq_none_iff.1 (hbefore p hp), hf, rfl⟩
    · rintro ⟨before, n, c, after, f, hchecks, hbefore, hf, rfl⟩
      exact ⟨before, (n, c), after, hchecks, Option.map_eq_some_iff.2 ⟨f, hf, rfl⟩,
        fun p hp => failureAt?_eq_none_iff.2 (hbefore p hp)⟩

/-- An addition may contradict the theory, and those beside it do not see this. -/
example :
    let s : Dataset := { theories := [{
      facts := ["a"], skeptical := ["a"], additions := [
        { facts := ["!a"], credulous := ["a"] }, { facts := ["b"], notCredulous := ["!a"] }] }] }
    s.check.run.value = .ok ⟨3, 3⟩ := by
  cbv

/-- The number of extensions is as expected, and the next expectation is not met. -/
example :
    let s : Dataset := { theories := [{ facts := ["a"] }, {
      facts := ["b"], additions := [{ count? := some 1, notCredulous := ["b"] }] }] }
    s.check.run.value =
      .error ⟨[.theory 1, .addition 0], .testFailure "({}, {b})" "not_credulous_entail `b'"⟩ := by
  cbv

end Dataset

end DefaultLogic
