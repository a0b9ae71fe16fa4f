import DefaultLogic.Proofs.Default.Simulation

/-!
# Searches in lockstep

Two encodings of a theory *correspond* on a candidate when a simulation relates the restricted
theories and the tests.  If they do on all candidates, their searches visit related extensions by
the same rules.

* `Visitor.entailment_agrees`: visitors ask extensions that answer alike.
* `Relates.search_agrees`: searches over related theories.
* `Corresponds.searchWith_agrees`: one candidate.
* `tryCandidate_agrees`: one candidate with the report.
* `search_agrees`: **the searches make the same report.**
-/

namespace DefaultLogic

theorem Progress.Agrees.map {σ τ σ' τ' : Type} {R : σ → τ → Prop} {R' : σ' → τ' → Prop}
    {f : σ → σ'} {g : τ → τ'} {p : Progress σ} {q : Progress τ} (h : p.Agrees R q)
    (hfg : ∀ s s', R s s' → R' (f s) (g s')) : (p.map f).Agrees R' (q.map g) := by
  cases p <;> cases q
  · exact hfg _ _ h
  · exact h.elim
  · exact h.elim
  · exact hfg _ _ h

theorem Progress.Agrees.state {σ τ : Type} {R : σ → τ → Prop} {p : Progress σ} {q : Progress τ}
    (h : p.Agrees R q) : R p.state q.state ∧ p.isDone = q.isDone := by
  cases p <;> cases q
  · exact ⟨h, rfl⟩
  · exact h.elim
  · exact h.elim
  · exact ⟨h, rfl⟩

theorem Progress.Agrees.eq {σ : Type} {p q : Progress σ} (h : p.Agrees Eq q) : p = q := by
  cases p <;> cases q
  · exact congrArg Progress.more h
  · exact h.elim
  · exact h.elim
  · exact congrArg Progress.done h

theorem Progress.Agrees.of_eq {σ : Type} {p q : Progress σ} (h : p = q) : p.Agrees Eq q := by
  subst h
  cases p <;> rfl

variable {T U σ τ : Type} [GroundLogic T] [GroundLogic U] {m : Formula → Formula}
  {Known : Formula → Prop}

theorem Visitor.entailment_agrees {x : T} {y : U} {f g : Formula}
    (h : (GroundLogic.entails f x).value.1 = (GroundLogic.entails g y).value.1) (mode : Mode)
    (b : Bool) :
    (Visitor.entailment f mode x b).value.Agrees Eq (Visitor.entailment g mode y b).value := by
  refine Progress.Agrees.of_eq ?_
  cases mode with
  | credulous =>
    show (if (GroundLogic.entails f x).value.1 then _ else _) = _
    rw [h]
    rfl
  | skeptical =>
    show (if (GroundLogic.entails f x).value.1 then _ else _) = _
    rw [h]
    rfl

namespace Simulation

variable (sim : Simulation T U m Known) {t : DefaultTheory T} {u : DefaultTheory U}

theorem Relates.generators_eq (h : sim.Relates t u) : u.generators = t.generators := by
  rw [DefaultTheory.generators, DefaultTheory.generators, h.rules, List.length_map]
  exact congrArg (List.filter · _) (funext fun chosen => (h.value_generates_eq sim chosen).symm)

/-- **Searches over related theories visit extensions by the same rules**, as long as the visitors
agree. -/
theorem Relates.search_agrees (h : sim.Relates t u) {visit : Visitor T σ} {visit' : Visitor U τ}
    {Gathered : σ → τ → Prop}
    (hvisit : ∀ chosen ∈ t.generators, ∀ s s', Gathered s s' →
      (visit (t.extensionBy chosen) s).value.Agrees Gathered
        (visit' (u.extensionBy chosen) s').value) {s : σ} {s' : τ} (hs : Gathered s s') :
    (t.search visit s).value.Agrees Gathered (u.search visit' s').value := by
  rw [t.value_search, u.value_search, h.generators_eq]
  exact Subsets.visitList_related hvisit hs

end Simulation

namespace Encoding

/-- Whether two encodings of a theory agree on a candidate, through a simulation. -/
structure Corresponds (sim : Simulation T U m Known) (e : Encoding T) (e' : Encoding U)
    (tracked : List String) (t : DefaultTheory T) (u : DefaultTheory U)
    (inconsistent : List String) : Prop where
  relates : sim.Relates (e.restricted tracked t inconsistent) (e'.restricted tracked u inconsistent)
  known : ∀ f ∈ e.testers inconsistent, Known f
  testers : e'.testers inconsistent = (e.testers inconsistent).map m

variable {e : Encoding T} {e' : Encoding U} {tracked S : List String} {t : DefaultTheory T}
  {u : DefaultTheory U} {visit : Visitor T σ} {visit' : Visitor U τ} {Gathered : σ → τ → Prop}
  {s : σ} {s' : τ}

def VisitorsAgree (sim : Simulation T U m Known) (e : Encoding T) (e' : Encoding U)
    (tracked : List String) (t : DefaultTheory T) (u : DefaultTheory U) (S : List String)
    (visit : Visitor T σ) (visit' : Visitor U τ) (Gathered : σ → τ → Prop) : Prop :=
  ∀ chosen x y, e.Visits tracked t S chosen x → e'.Visits tracked u S chosen y → sim.Related x y →
    ∀ s s', Gathered s s' → (visit x s).value.Agrees Gathered (visit' y s').value

/-- **One candidate**: related extensions are shown to both visitors or to neither. -/
theorem Corresponds.searchWith_agrees {sim : Simulation T U m Known}
    (h : Corresponds sim e e' tracked t u S)
    (hvisit : VisitorsAgree sim e e' tracked t u S visit visit' Gathered) (hs : Gathered s s') :
    (e.searchWith tracked t S visit s).value.Agrees (fun p q => p.1 = q.1 ∧ Gathered p.2 q.2)
      (e'.searchWith tracked u S visit' s').value := by
  refine h.relates.search_agrees sim ?_ ⟨rfl, hs⟩
  intro chosen hchosen p q hpq
  have hvisits : ∀ {x}, accept? (e.testers S) ((e.restricted tracked t S).extensionBy chosen) =
      some x → e.Visits tracked t S chosen x := visits_of_mem_generators hchosen
  rw [← h.relates.generators_eq sim] at hchosen
  have hvisits' : ∀ {y}, accept? (e'.testers S) ((e'.restricted tracked u S).extensionBy chosen) =
      some y → e'.Visits tracked u S chosen y := visits_of_mem_generators hchosen
  have haccept := sim.accept?_rel h.known (h.relates.extensionBy sim chosen)
  rw [← h.testers] at haccept
  rw [value_accepting, value_accepting]
  generalize accept? (e.testers S) ((e.restricted tracked t S).extensionBy chosen) = x?
    at haccept hvisits
  generalize accept? (e'.testers S) ((e'.restricted tracked u S).extensionBy chosen) = y?
    at haccept hvisits'
  cases haccept with
  | none => exact hpq
  | some hxy =>
    have hshown := hvisit chosen _ _ (hvisits rfl) (hvisits' rfl) hxy p.2 q.2 hpq.2
    exact hshown.map fun _ _ hs => ⟨rfl, hs⟩

/-- **The same rules generate extensions that are accepted.** -/
theorem Corresponds.exists_visits_iff {sim : Simulation T U m Known}
    (h : Corresponds sim e e' tracked t u S) (chosen : List Nat) :
    (∃ x, e.Visits tracked t S chosen x) ↔ ∃ y, e'.Visits tracked u S chosen y := by
  have hrules : u.rules = t.rules.map (Rule.map m) := h.relates.rules
  have haccept := isSome_eq_of_rel (sim.accept?_rel h.known (h.relates.extensionBy sim chosen))
  rw [← h.testers] at haccept
  rw [Encoding.exists_visits_iff, Encoding.exists_visits_iff, h.relates.value_generates_eq sim,
    haccept, hrules, List.length_map]

theorem tryCandidate_agrees {sim : Simulation T U m Known} (h : Corresponds sim e e' tracked t u S)
    (hvisit : VisitorsAgree sim e e' tracked t u S visit visit' Gathered) {r : Report × σ}
    {r' : Report × τ} (hr : r.1 = r'.1 ∧ Gathered r.2 r'.2) :
    (e.tryCandidate tracked t visit S r).value.Agrees (fun r r' => r.1 = r'.1 ∧ Gathered r.2 r'.2)
      (e'.tryCandidate tracked u visit' S r').value := by
  cases hskip : r.1.minimal.any fun m => m.all S.contains with
  | true =>
    rw [tryCandidate, tryCandidate, ← hr.1, hskip, if_pos rfl, if_pos rfl]
    exact hr
  | false =>
    obtain ⟨⟨hfound, hs⟩, hdone⟩ := (h.searchWith_agrees hvisit hr.2).state
    rw [value_tryCandidate_of_tried hskip, value_tryCandidate_of_tried (hr.1 ▸ hskip), hr.1]
    dsimp only
    rw [hfound, hdone]
    split
    · exact ⟨rfl, hs⟩
    · exact ⟨rfl, hs⟩

/-- **Searches over corresponding theories make the same report**, whatever their visitors gather
and whenever they stop, as long as they agree. -/
theorem search_agrees {sim : List String → Simulation T U m Known}
    (h : ∀ S, S.Sublist tracked → Corresponds (sim S) e e' tracked t u S)
    (hvisit : ∀ S, S.Sublist tracked →
      VisitorsAgree (sim S) e e' tracked t u S visit visit' Gathered) (hs : Gathered s s') :
    (e.search tracked t visit s).value.1 = (e'.search tracked u visit' s').value.1 ∧
      Gathered (e.search tracked t visit s).value.2 (e'.search tracked u visit' s').value.2 := by
  rw [search, search, Logged.value_map, Logged.value_map, Subsets.visitBySize_eq,
    Subsets.visitBySize_eq]
  have hlist : Progress.Agrees
      (fun (r : Report × σ) (r' : Report × τ) => r.1 = r'.1 ∧ Gathered r.2 r'.2)
      (Subsets.visitList (e.tryCandidate tracked t visit) (Subsets.bySize tracked) ({}, s)).value
      (Subsets.visitList (e'.tryCandidate tracked u visit') (Subsets.bySize tracked)
        ({}, s')).value := by
    refine Subsets.visitList_related ?_ ⟨rfl, hs⟩
    intro S hS r r' hr
    have hsub := Subsets.mem_bySize.1 hS
    exact tryCandidate_agrees (h S hsub) (hvisit S hsub) hr
  exact hlist.state.1

end Encoding

end DefaultLogic
