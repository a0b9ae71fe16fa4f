import DefaultLogic.Proofs.Default.Existence
import DefaultLogic.Proofs.Default.Reordering
import Mathlib.Data.Set.Card

/-!
# What is counted and what is asked

Searches go through rules by index and through sets of atoms by size.  What they count and ask are
Reiter's extensions, each with the atoms that are inconsistent in it, whatever the solver.

* `Encoding.mem_outcomes_iff`, `Encoding.nodup_outcomes`: what a search shows are the acceptable
  extensions of the minimal sets, each once.
* `Theory.length_extensions_eq_ncard`: **these are counted.**
* `Theory.entails_iff_over`: **an answer tells whether some or all of them believe the formula.**
-/

namespace DefaultLogic

open DefaultLogic.Sat

/-- Whether some or all of what there is has a property. -/
def Mode.Over {α : Type} : Mode → (α → Prop) → (α → Prop) → Prop
  | .credulous, P, Q => ∃ a, P a ∧ Q a
  | .skeptical, P, Q => ∀ a, P a → Q a

namespace Mode

theorem among_iff_over {α : Type} (mode : Mode) {xs : List α} {P p : α → Prop}
    (h : ∀ x, x ∈ xs ↔ P x) :
    mode.Among xs p ↔ mode.Over P p := by
  cases mode with
  | credulous => exact exists_congr fun x => and_congr_left fun _ => h x
  | skeptical => exact forall_congr' fun x => imp_congr_left (h x)

end Mode

/-! ## Shown extensions -/

namespace Encoding

variable {T : Type} [GroundLogic T] {e : Encoding T} {tracked : List String} {t : DefaultTheory T}
  {m : List String → Formula → Formula} {facts : List String → List Formula}

/-- The accepted extensions of the minimal sets, each with its set. -/
noncomputable def tagged (e : Encoding T) (tracked : List String) (t : DefaultTheory T) :
    List (List String × T) :=
  (e.minimalSets tracked t (Subsets.bySize tracked)).flatMap fun S =>
    (e.accepted tracked t S).map (Prod.mk S)

theorem map_snd_tagged :
    (e.tagged tracked t).map Prod.snd = e.shown tracked t (Subsets.bySize tracked) := by
  rw [tagged, List.map_flatMap, shown]
  refine List.flatMap_congr fun S _ => ?_
  rw [List.map_map]
  exact List.map_id _

/-- The minimal sets with the beliefs of their accepted extensions, where `m` tells how formulas are
read for each set. -/
noncomputable def outcomes (e : Encoding T) (tracked : List String) (t : DefaultTheory T)
    (m : List String → Formula → Formula) : List (List String × Beliefs) :=
  (e.tagged tracked t).map fun p => (p.1, believed (m p.1) p.2)

variable (h : ∀ S, ∃ R : Reading T, R.Reads (m S) (facts S) (e.restricted tracked t S).ground)

include h

theorem mem_outcomes_iff {p : List String × Beliefs} :
    p ∈ e.outcomes tracked t m ↔ e.IsMinimal tracked t p.1 ∧
      IsExtension (t.rules.map (Rule.map (m p.1))) ((facts p.1).map (m p.1)) p.2 ∧
        IsAcceptable (m p.1) (e.testers p.1) p.2 := by
  classical
  obtain ⟨S, E⟩ := p
  obtain ⟨R, hR⟩ := h S
  have haccepted : E ∈ (e.accepted tracked t S).map (believed (m S)) ↔
      IsExtension (t.rules.map (Rule.map (m S))) ((facts S).map (m S)) E ∧
        IsAcceptable (m S) (e.testers S) E := by
    rw [map_believed_accepted hR, List.mem_filter, decide_eq_true_iff]
    exact and_congr_left fun _ => DefaultTheory.mem_map_believed_found hR
  rw [← haccepted, ← mem_minimalSets_bySize, List.mem_map, outcomes, List.mem_map]
  constructor
  · rintro ⟨q, hq, heq⟩
    obtain ⟨S', hS', hq⟩ := List.mem_flatMap.1 hq
    obtain ⟨x, hx, rfl⟩ := List.mem_map.1 hq
    cases heq
    exact ⟨hS', x, hx, rfl⟩
  · rintro ⟨hS, x, hx, rfl⟩
    exact ⟨(S, x), List.mem_flatMap.2 ⟨S, hS, List.mem_map_of_mem hx⟩, rfl⟩

theorem nodup_outcomes (hnodup : tracked.Nodup) : (e.outcomes tracked t m).Nodup := by
  classical
  have hsets : (e.minimalSets tracked t (Subsets.bySize tracked)).Nodup :=
    (Subsets.nodup_bySize hnodup).filter _
  rw [outcomes, tagged, List.map_flatMap, List.nodup_flatMap]
  refine ⟨fun S _ => ?_, hsets.imp fun {S S'} hne => ?_⟩
  · obtain ⟨R, hR⟩ := h S
    have hbelieved : ((e.accepted tracked t S).map (believed (m S))).Nodup := by
      rw [map_believed_accepted hR]
      exact (DefaultTheory.nodup_map_believed_found hR).filter _
    rw [List.map_map]
    refine List.Nodup.of_map Prod.snd ?_
    rw [List.map_map]
    exact hbelieved
  · -- Extensions of different sets are told apart by their sets.
    rw [Function.onFun, List.map_map, List.map_map]
    intro p hp hp'
    obtain ⟨x, -, rfl⟩ := List.mem_map.1 hp
    obtain ⟨y, -, heq⟩ := List.mem_map.1 hp'
    exact hne (Prod.mk.inj heq).1.symm

theorem length_shown_eq_ncard (hnodup : tracked.Nodup) {P : List String × Beliefs → Prop}
    (hP : ∀ p, p ∈ e.outcomes tracked t m ↔ P p) :
    (e.shown tracked t (Subsets.bySize tracked)).length = Set.ncard {p | P p} := by
  rw [← length_eq_ncard (nodup_outcomes h hnodup) hP, outcomes, List.length_map, ← map_snd_tagged,
    List.length_map]

theorem among_shown_iff (mode : Mode) (f : Formula) {P : List String × Beliefs → Prop}
    (hP : ∀ p, p ∈ e.outcomes tracked t m ↔ P p) :
    mode.Among (e.shown tracked t (Subsets.bySize tracked))
        (fun x => (GroundLogic.entails f x).value.1 = true) ↔
      mode.Over P fun p => p.2 (m p.1 f) := by
  rw [← mode.among_iff_over hP, outcomes, Mode.among_map_iff, ← map_snd_tagged,
    Mode.among_map_iff]
  have hanswer : ∀ p ∈ e.tagged tracked t,
      (GroundLogic.entails f p.2).value.1 = true ↔ believed (m p.1) p.2 (m p.1 f) := by
    intro p hp
    obtain ⟨S, -, hp⟩ := List.mem_flatMap.1 hp
    obtain ⟨x, hx, rfl⟩ := List.mem_map.1 hp
    obtain ⟨R, hR⟩ := h S
    obtain ⟨fs, hfs⟩ := exists_reads_of_mem_accepted hR hx
    rw [R.believed_eq hfs]
    exact R.entails_iff f hfs
  exact mode.among_congr_mem hanswer

end Encoding

/-! ## Theories -/

/-- How a kind of default logic reads formulas when the given atoms may be inconsistent. -/
def Kind.read (inconsistent : List String) : Kind → Formula → Formula
  | .classical => id
  | .native => Formula.pnnf inconsistent
  | .renamed => Formula.fullPnnf

namespace Theory

/-- The extensions of a theory as sets of beliefs, each with the atoms that may be inconsistent in
it: none in classical logic, and else those of a minimal set that has an acceptable extension.  The
renaming encoding also asserts of the further atoms of a question that they are classical. -/
def IsOutcome (t : Theory) (further : List String) : Kind → List String × Beliefs → Prop
  | .classical, p => p.1 = [] ∧ IsExtension t.rules t.facts p.2
  | .native, p =>
    Subsets.IsMinimal (fun S => t.HasAcceptable (Formula.pnnf S) [] S) t.atoms p.1 ∧
      t.Accepts (Formula.pnnf p.1) [] p.1 p.2
  | .renamed, p =>
    let assertions := classicalAssertions (t.atoms ++ further)
    Subsets.IsMinimal (fun S => t.HasAcceptable Formula.fullPnnf (assertions S) S) t.atoms p.1 ∧
      t.Accepts Formula.fullPnnf (assertions p.1) p.1 p.2

section

variable {solver : Solver} {t : Theory}

theorem mem_map_found_iff (hs : solver.Decides) (t : Theory) (further : List String)
    (p : List String × Beliefs) :
    p ∈ (t.classical solver).found.map (fun x => ([], believed id x)) ↔
      t.IsOutcome further .classical p := by
  obtain ⟨S, E⟩ := p
  have hfound : E ∈ (t.classical solver).found.map (believed id) ↔
      IsExtension t.rules t.facts E := by
    rw [DefaultTheory.mem_map_believed_found (t.reads_classical hs), List.map_id]
    exact iff_of_eq (congrArg (IsExtension · t.facts E) (List.map_id _))
  rw [IsOutcome, ← hfound, List.mem_map, List.mem_map]
  constructor
  · rintro ⟨x, hx, heq⟩
    cases heq
    exact ⟨rfl, x, hx, rfl⟩
  · rintro ⟨rfl, x, hx, rfl⟩
    exact ⟨x, hx, rfl⟩

theorem mem_outcomes_native_iff (hs : solver.Decides) (t : Theory) (further : List String)
    (p : List String × Beliefs) :
    p ∈ (Encoding.native solver).outcomes t.atoms (nativeTheory solver t) Formula.pnnf ↔
      t.IsOutcome further .native p := by
  refine (Encoding.mem_outcomes_iff fun S => ⟨_, reads_native hs t S⟩).trans (and_congr ?_ ?_)
  · rw [Encoding.isMinimal_iff]
    exact Subsets.isMinimal_congr fun S _ => successful_native_iff hs t S
  · exact accepts_native_iff solver t p.1 p.2

theorem mem_outcomes_renamed_iff (hs : solver.Decides) (t : Theory) (further : List String)
    (p : List String × Beliefs) :
    p ∈ (Encoding.renamed solver).outcomes t.atoms (renamedTheory solver t further) (fun _ => id) ↔
      t.IsOutcome further .renamed p := by
  refine (Encoding.mem_outcomes_iff fun S => ⟨_, reads_renamed hs t further S⟩).trans ?_
  have hminimal := Subsets.isMinimal_congr (S := p.1) fun S hS =>
    successful_renamed_iff hs t further hS
  rw [Encoding.isMinimal_iff, hminimal]
  refine and_congr_right fun hp => ?_
  exact accepts_renamed_iff solver t further hp.sublist.subset p.2

/-- **What is counted are Reiter's extensions**, those of a paraconsistent theory once for each
minimal set of atoms that may be inconsistent in them. -/
theorem length_extensions_eq_ncard (hs : solver.Decides) (ht : t.IsTracked) (k : Kind) :
    (t.extensions solver k).value.length = Set.ncard {p | t.IsOutcome [] k p} := by
  cases k with
  | classical =>
    have hnodup : ((t.classical solver).found.map fun x =>
        (([] : List String), believed id x)).Nodup := by
      refine List.Nodup.of_map Prod.snd ?_
      rw [List.map_map]
      exact DefaultTheory.nodup_map_believed_found (t.reads_classical hs)
    rw [extensions_classical_eq, ← length_eq_ncard hnodup (mem_map_found_iff hs t []),
      List.length_map, List.length_map]
  | native =>
    rw [extensions, extensionsUnder_eq _ ht, List.length_map]
    exact Encoding.length_shown_eq_ncard (fun S => ⟨_, reads_native hs t S⟩) ht.nodup
      (mem_outcomes_native_iff hs t [])
  | renamed =>
    rw [extensions, extensionsUnder_eq _ ht, List.length_map]
    exact Encoding.length_shown_eq_ncard (fun S => ⟨_, reads_renamed hs t [] S⟩) ht.nodup
      (mem_outcomes_renamed_iff hs t [])

/-- **An answer tells whether some or all of Reiter's extensions believe the formula**, as the kind
of default logic reads it. -/
theorem entails_iff_over (hs : solver.Decides) (ht : t.IsTracked) (mode : Mode) (f : Formula)
    (k : Kind) :
    (t.entails solver mode f k).value = true ↔
      mode.Over (t.IsOutcome f.atoms k) fun p => p.2 (k.read p.1 f) := by
  cases k with
  | classical =>
    rw [entails_classical_iff, ← mode.among_iff_over (mem_map_found_iff hs t f.atoms),
      Mode.among_map_iff]
    have hanswer : ∀ x ∈ (t.classical solver).found,
        (GroundLogic.entails f x).value.1 = true ↔ believed id x f := by
      intro x hx
      obtain ⟨fs, hfs⟩ := DefaultTheory.exists_reads_of_mem_found (t.reads_classical hs) hx
      rw [Reading.believed_eq hfs]
      exact Reading.entails_iff _ f hfs
    exact mode.among_congr_mem hanswer
  | native =>
    exact (entailsUnder_iff _ ht mode f).trans (Encoding.among_shown_iff
      (fun S => ⟨_, reads_native hs t S⟩) mode f (mem_outcomes_native_iff hs t f.atoms))
  | renamed =>
    exact (entailsUnder_iff _ ht mode f).trans (Encoding.among_shown_iff
      (fun S => ⟨_, reads_renamed hs t f.atoms S⟩) mode f.fullPnnf
      (mem_outcomes_renamed_iff hs t f.atoms))

end

end Theory

end DefaultLogic
