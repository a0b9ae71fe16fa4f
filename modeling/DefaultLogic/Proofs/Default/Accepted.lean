import DefaultLogic.Default.Paraconsistent
import DefaultLogic.Proofs.Default.Subsets
import DefaultLogic.Proofs.Theory.Ground

/-!
# Accepted extensions

An extension of a restricted theory is passed on to the visitor if it is satisfiable and makes each
atom of the candidate both true and false.

* `DefaultTheory.value_search`: a visitor is shown the extensions by the rules that pass the test.
* `value_accepting`: what becomes of one extension.
* `Reading.accept?_isSome_iff`: **an extension is accepted when its formulas are satisfiable and
  entail the tests.**
* `Encoding.successful_iff`: a candidate is successful when some extension of it is accepted.
* `Encoding.Visits.reads`: **what is visited is satisfiable and entails the tests.**
* `Encoding.value_searchWith`: **the search of a candidate shows its visitor the accepted extensions
  in order** until it is done, and finds something exactly when there is one.
* `Encoding.found_searchWith_iff`, `Encoding.successful_of_mem_minimal`: what a search notes as
  found is successful, whenever its visitor stops.
* `Encoding.value_search_of_nil`: a successful empty candidate ends the search.
-/

namespace DefaultLogic

def Progress.map {σ τ : Type} (f : σ → τ) : Progress σ → Progress τ
  | .more s => .more (f s)
  | .done s => .done (f s)

@[simp] theorem Progress.state_map {σ τ : Type} (f : σ → τ) (p : Progress σ) :
    (p.map f).state = f p.state := by
  cases p <;> rfl

@[simp] theorem Progress.isDone_map {σ τ : Type} (f : σ → τ) (p : Progress σ) :
    (p.map f).isDone = p.isDone := by
  cases p <;> rfl

theorem Progress.eq_more_of_isDone_eq_false {σ : Type} {p : Progress σ} (h : p.isDone = false) :
    p = .more p.state := by
  cases p with
  | more s => rfl
  | done s => cases h

variable {T σ : Type} [GroundLogic T]

/-! ## Found extensions -/

namespace DefaultTheory

/-- The lists of rules that pass the test, in the order of the search. -/
def generators (t : DefaultTheory T) : List (List Nat) :=
  (Subsets.bySize (List.range t.rules.length)).filter fun chosen => (t.generates chosen).value

def found (t : DefaultTheory T) : List T := t.generators.map t.extensionBy

/-- One step of the search: rules that pass the test show the visitor their extension. -/
def tryRules (t : DefaultTheory T) (visit : Visitor T σ) (chosen : List Nat) (s : σ) :
    Logged (Progress σ) := do
  if ← t.generates chosen then do
    Logged.log (.found chosen)
    visit (t.extensionBy chosen) s
  else pure (.more s)

theorem search_eq (t : DefaultTheory T) (visit : Visitor T σ) (s : σ) :
    t.search visit s = Subsets.visitList (t.tryRules visit)
      (Subsets.bySize (List.range t.rules.length)) s := by
  rw [search, searchIn, Subsets.visitBySize_eq]
  simp only [extensionByIn_logged, pure_bind]
  rfl

theorem value_tryRules (t : DefaultTheory T) (visit : Visitor T σ) (chosen : List Nat) (s : σ) :
    (t.tryRules visit chosen s).value =
      if (t.generates chosen).value then (visit (t.extensionBy chosen) s).value else .more s := by
  rw [tryRules, Logged.value_bind]
  split <;> rfl

/-- **The search shows the visitor the extensions of the lists of rules that pass the test**, in
order, until it is done. -/
theorem value_search (t : DefaultTheory T) (visit : Visitor T σ) (s : σ) :
    (t.search visit s).value =
      (Subsets.visitList (fun chosen => visit (t.extensionBy chosen)) t.generators s).value := by
  rw [search_eq]
  exact Subsets.value_visitList_filter (t.value_tryRules visit) _ s

/-- **The search shows the visitor the extensions in order**, until it is done. -/
theorem value_search_found (t : DefaultTheory T) (visit : Visitor T σ) (s : σ) :
    (t.search visit s).value = (Subsets.visitList visit t.found s).value := by
  rw [value_search, found, Subsets.value_visitList_map]

end DefaultTheory

/-! ## The test of an extension -/

namespace Encoding

/-- What a visitor gets of an extension: nothing unless it is satisfiable and passes the tests. -/
def accept? (testers : List Formula) (x : T) : Option T :=
  let checked := (GroundLogic.satisfiable none x).value
  let tested := (GroundLogic.entailsAll testers checked.2).value
  if checked.1 && tested.1 then some tested.2 else none

theorem value_accepting (testers : List Formula) (visit : Visitor T σ) (x : T) (s : Bool × σ) :
    (accepting testers visit x s).value =
      match accept? testers x with
      | none => .more s
      | some x => (visit x s.2).value.map (true, ·) := by
  rw [accepting, accept?, Logged.value_bind]
  generalize (GroundLogic.satisfiable none x).value = checked
  obtain ⟨satisfiable, y⟩ := checked
  cases satisfiable with
  | false => rfl
  | true =>
    show (GroundLogic.entailsAll testers y >>= _).value = _
    rw [Logged.value_bind]
    generalize (GroundLogic.entailsAll testers y).value = tested
    obtain ⟨inconsistent, z⟩ := tested
    cases inconsistent with
    | false => rfl
    | true =>
      show (visit z s.2 >>= _).value = (visit z s.2).value.map (true, ·)
      rw [Logged.value_bind]
      cases (visit z s.2).value <;> rfl

end Encoding

/-- **An extension is accepted when its formulas are satisfiable and entail the tests.** -/
theorem Reading.accept?_isSome_iff (R : Reading T) {m : Formula → Formula} {fs : List Formula}
    {x : T} (h : R.Reads m fs x) (testers : List Formula) :
    (Encoding.accept? testers x).isSome = true ↔
      (∃ v, Satisfies v (fs.map m)) ∧ ∀ g ∈ testers, Entails (fs.map m) (m g) := by
  have hsat := R.satisfiable_iff none h
  obtain ⟨hall, -⟩ := R.entailsAll_iff testers (R.afterSatisfiable none h)
  rw [Option.toList_none, List.append_nil] at hsat
  rw [Encoding.accept?, ← hsat, ← hall, ← Bool.and_eq_true]
  split
  · next hb => exact iff_of_true rfl hb
  · next hb => exact iff_of_false Bool.false_ne_true hb

theorem Reading.reads_of_accept? (R : Reading T) {m : Formula → Formula} {fs : List Formula}
    {x y : T} (h : R.Reads m fs x) {testers : List Formula}
    (hy : Encoding.accept? testers x = some y) :
    R.Reads m fs y := by
  rw [Encoding.accept?] at hy
  split at hy
  · obtain rfl := Option.some.inj hy
    exact (R.entailsAll_iff testers (R.afterSatisfiable none h)).2
  · cases hy

/-! ## One candidate -/

namespace Encoding

variable (e : Encoding T) (tracked : List String) (t : DefaultTheory T)

/-- The theory in which only the given atoms may be inconsistent. -/
def restricted (inconsistent : List String) : DefaultTheory T :=
  { t with ground := e.restrict tracked inconsistent t.ground }

/-- The accepted extensions of a restricted theory, in the order of the search. -/
def accepted (inconsistent : List String) : List T :=
  (e.restricted tracked t inconsistent).found.filterMap (accept? (e.testers inconsistent))

/-- Whether a restricted theory has an accepted extension. -/
def Successful (inconsistent : List String) : Prop := e.accepted tracked t inconsistent ≠ []

/-- Whether the visitor gets `x` as the extension by the chosen rules in a restricted theory. -/
structure Visits (inconsistent : List String) (chosen : List Nat) (x : T) : Prop where
  sublist : chosen.Sublist (List.range t.rules.length)
  generates : ((e.restricted tracked t inconsistent).generates chosen).value = true
  accepts : accept? (e.testers inconsistent)
    ((e.restricted tracked t inconsistent).extensionBy chosen) = some x

variable {e tracked t} in
theorem visits_of_mem_generators {inconsistent : List String} {chosen : List Nat}
    (h : chosen ∈ (e.restricted tracked t inconsistent).generators) {x : T}
    (hx : accept? (e.testers inconsistent)
      ((e.restricted tracked t inconsistent).extensionBy chosen) = some x) :
    e.Visits tracked t inconsistent chosen x := by
  obtain ⟨hmem, htest⟩ := List.mem_filter.1 h
  exact ⟨Subsets.mem_bySize.1 hmem, htest, hx⟩

variable {e tracked t} in
theorem exists_visits_iff {inconsistent : List String} {chosen : List Nat} :
    (∃ x, e.Visits tracked t inconsistent chosen x) ↔
      chosen.Sublist (List.range t.rules.length) ∧
        ((e.restricted tracked t inconsistent).generates chosen).value = true ∧
        (accept? (e.testers inconsistent)
          ((e.restricted tracked t inconsistent).extensionBy chosen)).isSome = true := by
  rw [Option.isSome_iff_exists]
  constructor
  · rintro ⟨x, hsub, htest, hx⟩
    exact ⟨hsub, htest, x, hx⟩
  · rintro ⟨hsub, htest, x, hx⟩
    exact ⟨x, hsub, htest, hx⟩

variable {e tracked t} in
theorem mem_accepted_iff {inconsistent : List String} {x : T} :
    x ∈ e.accepted tracked t inconsistent ↔ ∃ chosen, e.Visits tracked t inconsistent chosen x := by
  constructor
  · intro hx
    obtain ⟨y, hy, haccept⟩ := List.mem_filterMap.1 hx
    obtain ⟨chosen, hchosen, rfl⟩ := List.mem_map.1 hy
    exact ⟨chosen, visits_of_mem_generators hchosen haccept⟩
  · rintro ⟨chosen, hsub, htest, hx⟩
    have hchosen : chosen ∈ (e.restricted tracked t inconsistent).generators :=
      List.mem_filter.2 ⟨Subsets.mem_bySize.2 hsub, htest⟩
    exact List.mem_filterMap.2 ⟨_, List.mem_map_of_mem hchosen, hx⟩

variable {e tracked t} in
theorem successful_iff {inconsistent : List String} :
    e.Successful tracked t inconsistent ↔ ∃ chosen x, e.Visits tracked t inconsistent chosen x := by
  constructor
  · intro h
    obtain ⟨x, hx⟩ := List.exists_mem_of_ne_nil _ h
    obtain ⟨chosen, hvisits⟩ := mem_accepted_iff.1 hx
    exact ⟨chosen, x, hvisits⟩
  · rintro ⟨chosen, x, hvisits⟩
    exact List.ne_nil_of_mem (mem_accepted_iff.2 ⟨chosen, hvisits⟩)

variable {e tracked t} in
/-- **What is visited holds the facts and the conclusions of its rules**, which are satisfiable and
entail the tests. -/
theorem Visits.reads {R : Reading T} {m : Formula → Formula} {facts : List Formula}
    {inconsistent : List String} {chosen : List Nat} {x : T}
    (hx : e.Visits tracked t inconsistent chosen x)
    (h : R.Reads m facts (e.restricted tracked t inconsistent).ground) :
    let fs := facts ++ t.consequents chosen
    R.Reads m fs x ∧ (∃ v, Satisfies v (fs.map m)) ∧
      ∀ g ∈ e.testers inconsistent, Entails (fs.map m) (m g) := by
  have hreads := R.addAll (t.consequents chosen) h
  have hsome := Option.isSome_iff_exists.2 ⟨x, hx.accepts⟩
  exact ⟨R.reads_of_accept? hreads hx.accepts, (R.accept?_isSome_iff hreads _).1 hsome⟩

/-! ## Searches whose visitors may stop -/

variable {e tracked t}

/-- Of some extensions a visitor gets those that are accepted, in order, until it is done, and it is
noted whether there is one. -/
theorem value_visitList_accepting (testers : List Formula) (visit : Visitor T σ) (xs : List T)
    (found : Bool) (s : σ) :
    (Subsets.visitList (accepting testers visit) xs (found, s)).value =
      (Subsets.visitList visit (xs.filterMap (accept? testers)) s).value.map
        (found || !(xs.filterMap (accept? testers)).isEmpty, ·) := by
  induction xs generalizing found s with
  | nil =>
    rw [List.filterMap_nil, List.isEmpty_nil, Bool.not_true, Bool.or_false]
    rfl
  | cons x xs ih =>
    rw [Subsets.visitList, Logged.value_bind, value_accepting, List.filterMap_cons]
    cases accept? testers x with
    | none => exact ih found s
    | some y =>
      dsimp only
      rw [Subsets.visitList, Logged.value_bind, List.isEmpty_cons, Bool.not_false, Bool.or_true]
      cases (visit y s).value with
      | done r => rfl
      | more r =>
        refine (ih true r).trans ?_
        rw [Bool.true_or]

/-- **The search of a candidate shows its visitor the accepted extensions in order**, until it is
done, and notes whether there is one. -/
theorem value_searchWith (S : List String) (visit : Visitor T σ) (s : σ) :
    (e.searchWith tracked t S visit s).value =
      (Subsets.visitList visit (e.accepted tracked t S) s).value.map
        (!(e.accepted tracked t S).isEmpty, ·) := by
  rw [searchWith, ← restricted, DefaultTheory.value_search_found, value_visitList_accepting,
    Bool.false_or]
  rfl

/-- **Something is found exactly when the candidate is successful.** -/
theorem found_searchWith_iff {S : List String} {visit : Visitor T σ} {s : σ} :
    (e.searchWith tracked t S visit s).value.state.1 = true ↔ e.Successful tracked t S := by
  rw [value_searchWith, Progress.state_map, Bool.not_eq_true', List.isEmpty_eq_false_iff]
  rfl

theorem value_tryCandidate_of_tried {S : List String} {visit : Visitor T σ} {r : Report × σ}
    (h : (r.1.minimal.any fun m => m.all S.contains) = false) :
    (e.tryCandidate tracked t visit S r).value =
      let result := (e.searchWith tracked t S visit r.2).value
      let report : Report :=
        { candidates := r.1.candidates + 1
          minimal := if result.state.1 then r.1.minimal ++ [S] else r.1.minimal
          stopped := result.isDone }
      if result.state.1 && S.isEmpty || result.isDone then .done (report, result.state.2)
      else .more (report, result.state.2) := by
  rw [tryCandidate, h, if_neg Bool.false_ne_true, Logged.value_bind, Logged.value_bind]
  generalize (e.searchWith tracked t S visit r.2).value = result
  dsimp only
  cases hnil : result.state.1 && S.isEmpty with
  | true => rfl
  | false => cases result.isDone <;> rfl

/-- **The report lists only successful candidates.** -/
theorem successful_of_mem_minimal {visit : Visitor T σ} {s : σ} {S : List String}
    (h : S ∈ (e.search tracked t visit s).value.1.minimal) : e.Successful tracked t S := by
  have hkeeps : ∀ C ∈ Subsets.bySize tracked, ∀ r : Report × σ,
      (∀ M ∈ r.1.minimal, e.Successful tracked t M) →
        ∀ M ∈ (e.tryCandidate tracked t visit C r).value.state.1.minimal,
          e.Successful tracked t M := by
    intro C _ r hr
    cases hskip : r.1.minimal.any fun m => m.all C.contains with
    | true =>
      rw [tryCandidate, hskip, if_pos rfl]
      exact hr
    | false =>
      have hminimal : (e.tryCandidate tracked t visit C r).value.state.1.minimal =
          if (e.searchWith tracked t C visit r.2).value.state.1 then r.1.minimal ++ [C]
          else r.1.minimal := by
        rw [value_tryCandidate_of_tried hskip]
        dsimp only
        split <;> rfl
      rw [hminimal]
      split
      · next hfound =>
        have hC := found_searchWith_iff.1 hfound
        exact List.forall_mem_append.2 ⟨hr, List.forall_mem_singleton.2 hC⟩
      · exact hr
  rw [search, Logged.value_map, Subsets.visitBySize_eq] at h
  exact Subsets.visitList_keeps hkeeps (fun _ h => absurd h List.not_mem_nil) S h

theorem value_search_of_nil (h : e.Successful tracked t []) (visit : Visitor T σ) (s : σ) :
    (e.search tracked t visit s).value =
      let result := (e.searchWith tracked t [] visit s).value
      (⟨1, [[]], result.isDone⟩, result.state.2) := by
  obtain ⟨rest, hfirst⟩ := Subsets.bySize_eq_cons tracked
  have htried : (({} : Report).minimal.any fun m => m.all ([] : List String).contains) = false :=
    rfl
  rw [search, Logged.value_map, Subsets.visitBySize_eq, hfirst, Subsets.visitList,
    Logged.value_bind, value_tryCandidate_of_tried htried]
  dsimp only
  rw [found_searchWith_iff.2 h]
  rfl

end Encoding

end DefaultLogic
