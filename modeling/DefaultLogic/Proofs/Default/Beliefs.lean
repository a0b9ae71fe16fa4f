import DefaultLogic.Proofs.Default.Enumeration

/-!
# What found extensions believe

Through a reading of the ground logic every extension that a search finds stands for a set of
beliefs.  Which sets these are depends on the rules and the facts as sets only, and each is found
once, whatever the order of the rules and however often they are repeated.

* `isExtension_congr`: Reiter's definition asks which rules and facts there are.
* `DefaultTheory.mem_map_believed_found`, `DefaultTheory.nodup_map_believed_found`: **a search finds
  each of Reiter's extensions once**, under any reading.
* `Encoding.map_believed_accepted`: those that are accepted are told apart by their beliefs.
* `DefaultTheory.found_perm`, `Encoding.accepted_perm`: **theories with the same rules and facts
  find extensions that answer alike, in some other order.**
-/

namespace DefaultLogic

/-! ## The same elements -/

/-- Whether two lists have the same elements, in whatever order and however often. -/
def SameElements {α : Type} (xs ys : List α) : Prop := ∀ a, a ∈ xs ↔ a ∈ ys

namespace SameElements

variable {α β : Type} {xs ys xs' ys' : List α}

theorem refl (xs : List α) : SameElements xs xs := fun _ => Iff.rfl

theorem symm (h : SameElements xs ys) : SameElements ys xs := fun a => (h a).symm

theorem map (f : α → β) (h : SameElements xs ys) : SameElements (xs.map f) (ys.map f) := by
  intro b
  rw [List.mem_map, List.mem_map]
  exact exists_congr fun a => and_congr_left fun _ => h a

theorem append (h : SameElements xs ys) (h' : SameElements xs' ys') :
    SameElements (xs ++ xs') (ys ++ ys') := by
  intro a
  rw [List.mem_append, List.mem_append, h a, h' a]

end SameElements

section

variable {rules rules' : List Rule} {facts facts' : List Formula} {E B : Beliefs}

theorem IsSaturated.of_sameElements (hrules : SameElements rules rules')
    (hfacts : SameElements facts facts') (h : IsSaturated rules facts E B) :
    IsSaturated rules' facts' E B where
  facts f hf := h.facts f ((hfacts f).2 hf)
  closed := h.closed
  rules r hr := h.rules r ((hrules r).2 hr)

/-- **What is an extension depends on the rules and the facts as sets.** -/
theorem isExtension_congr (hrules : SameElements rules rules')
    (hfacts : SameElements facts facts') :
    IsExtension rules facts E ↔ IsExtension rules' facts' E := by
  have hsaturated : ∀ B, IsSaturated rules facts E B ↔ IsSaturated rules' facts' E B := fun B =>
    ⟨.of_sameElements hrules hfacts, .of_sameElements hrules.symm hfacts.symm⟩
  refine forall_congr' fun f => iff_congr Iff.rfl ?_
  exact forall_congr' fun B => imp_congr_left (hsaturated B)

end

/-! ## Beliefs and answers -/

variable {T : Type} [GroundLogic T]

/-- The beliefs that a theory stands for if it takes its formulas through `m`. -/
def believed (m : Formula → Formula) (x : T) : Beliefs :=
  (Beliefs.ofList ((GroundLogic.formulas x).map m)).closure

def answers (x : T) (f : Formula) : Bool := (GroundLogic.entails f x).value.1

variable {R R' : Reading T} {m : Formula → Formula} {fs : List Formula} {x : T}

theorem Reading.believed_eq (h : R.Reads m fs x) :
    believed m x = (Beliefs.ofList (fs.map m)).closure := by
  rw [believed, R.formulas h]

open Classical in
theorem Reading.answers_eq (h : R.Reads m fs x) :
    answers x = fun f => decide (believed m x (m f)) := by
  funext f
  rw [Bool.eq_iff_iff, decide_eq_true_iff, R.believed_eq h]
  exact R.entails_iff f h

theorem Reading.answers_perm {xs ys : List T} (hxs : ∀ x ∈ xs, ∃ fs, R.Reads m fs x)
    (hys : ∀ y ∈ ys, ∃ fs, R'.Reads m fs y)
    (h : (xs.map (believed m)).Perm (ys.map (believed m))) :
    (xs.map answers).Perm (ys.map answers) := by
  classical
  -- Both lists have the answers of the beliefs; the formulas that are held may be in another order.
  let answer (E : Beliefs) (f : Formula) : Bool := decide (E (m f))
  have hleft : xs.map answers = (xs.map (believed m)).map answer := by
    rw [List.map_map]
    refine List.map_congr_left fun x hx => ?_
    obtain ⟨fs, hfs⟩ := hxs x hx
    exact R.answers_eq hfs
  have hright : ys.map answers = (ys.map (believed m)).map answer := by
    rw [List.map_map]
    refine List.map_congr_left fun y hy => ?_
    obtain ⟨fs, hfs⟩ := hys y hy
    exact R'.answers_eq hfs
  rw [hleft, hright]
  exact h.map answer

/-! ## Found extensions -/

namespace DefaultTheory

variable {facts facts' : List Formula} {t t' : DefaultTheory T}

theorem mem_generators_iff (h : R.Reads m facts t.ground) {chosen : List Nat} :
    chosen ∈ t.generators ↔ chosen.Sublist (List.range t.rules.length) ∧
      IsExtensionBy (t.rules.map (Rule.map m)) (facts.map m) chosen := by
  rw [generators, List.mem_filter, Subsets.mem_bySize]
  exact and_congr_right fun _ => generates_iff_isExtensionBy h chosen

theorem exists_reads_of_mem_found (h : R.Reads m facts t.ground) {x : T} (hx : x ∈ t.found) :
    ∃ fs, R.Reads m fs x := by
  obtain ⟨chosen, -, rfl⟩ := List.mem_map.1 hx
  exact ⟨_, R.addAll (t.consequents chosen) h⟩

theorem believed_extensionBy (h : R.Reads m facts t.ground) (chosen : List Nat) :
    believed m (t.extensionBy chosen) =
      (Beliefs.stated (t.rules.map (Rule.map m)) (facts.map m) chosen).closure := by
  have hreads : R.Reads m (facts ++ t.consequents chosen) (t.extensionBy chosen) :=
    R.addAll (t.consequents chosen) h
  rw [R.believed_eq hreads]
  refine funext fun f => propext (forall_congr' fun v => imp_congr_left ?_)
  exact (holdIn_stated_iff chosen v).symm

/-- **What is found is what Reiter calls extensions.** -/
theorem mem_map_believed_found (h : R.Reads m facts t.ground) {E : Beliefs} :
    E ∈ t.found.map (believed m) ↔ IsExtension (t.rules.map (Rule.map m)) (facts.map m) E := by
  rw [found, List.map_map, List.mem_map]
  constructor
  · rintro ⟨chosen, hchosen, rfl⟩
    rw [Function.comp_apply, believed_extensionBy h]
    exact ((mem_generators_iff h).1 hchosen).2.1
  · intro hE
    obtain ⟨chosen, hsub, hext, hstated⟩ := hE.exists_isExtensionBy
    rw [List.length_map] at hsub
    refine ⟨chosen, (mem_generators_iff h).2 ⟨hsub, hext⟩, ?_⟩
    rw [Function.comp_apply, believed_extensionBy h]
    exact funext fun f => propext (hstated f).symm

/-- **No extension is found twice.** -/
theorem nodup_map_believed_found (h : R.Reads m facts t.ground) :
    (t.found.map (believed m)).Nodup := by
  rw [found, List.map_map]
  refine List.Nodup.map_on (fun as has bs hbs heq => ?_) t.nodup_generators
  rw [Function.comp_apply, Function.comp_apply, believed_extensionBy h, believed_extensionBy h]
    at heq
  obtain ⟨hsubA, hextA⟩ := (mem_generators_iff h).1 has
  obtain ⟨hsubB, hextB⟩ := (mem_generators_iff h).1 hbs
  rw [← List.length_map (Rule.map m)] at hsubA hsubB
  exact hextA.eq_of_closure_eq hextB hsubA hsubB heq

/-- **Theories with the same rules and facts find the same extensions**, in some other order. -/
theorem found_perm (h : R.Reads m facts t.ground) (h' : R'.Reads m facts' t'.ground)
    (hrules : SameElements t.rules t'.rules) (hfacts : SameElements facts facts') :
    (t.found.map (believed m)).Perm (t'.found.map (believed m)) := by
  refine (List.perm_ext_iff_of_nodup (nodup_map_believed_found h)
    (nodup_map_believed_found h')).2 fun E => ?_
  rw [mem_map_believed_found h, mem_map_believed_found h']
  exact isExtension_congr (hrules.map _) (hfacts.map m)

end DefaultTheory

/-! ## Accepted extensions -/

namespace Encoding

/-- Whether beliefs are accepted: they are satisfiable, and the tests are believed. -/
structure IsAcceptable (m : Formula → Formula) (testers : List Formula) (E : Beliefs) : Prop where
  satisfiable : ∃ v, E.HoldIn v
  tests : ∀ g ∈ testers, E (m g)

theorem isAcceptable_congr {testers testers' : List Formula} {E : Beliefs}
    (h : SameElements testers testers') :
    IsAcceptable m testers E ↔ IsAcceptable m testers' E :=
  ⟨fun hE => ⟨hE.satisfiable, fun g hg => hE.tests g ((h g).2 hg)⟩,
    fun hE => ⟨hE.satisfiable, fun g hg => hE.tests g ((h g).1 hg)⟩⟩

theorem isSome_accept?_iff (h : R.Reads m fs x) (testers : List Formula) :
    (accept? testers x).isSome = true ↔ IsAcceptable m testers (believed m x) := by
  rw [R.accept?_isSome_iff h, R.believed_eq h]
  constructor
  · rintro ⟨⟨v, hv⟩, htests⟩
    exact ⟨⟨v, Beliefs.holdIn_closure.2 hv⟩, htests⟩
  · rintro ⟨⟨v, hv⟩, htests⟩
    exact ⟨⟨v, Beliefs.holdIn_closure.1 hv⟩, htests⟩

open Classical in
theorem map_believed_accept? (h : R.Reads m fs x) (testers : List Formula) :
    (accept? testers x).map (believed m) =
      if IsAcceptable m testers (believed m x) then some (believed m x) else none := by
  have hiff := isSome_accept?_iff h testers
  cases hx : accept? testers x with
  | none =>
    rw [hx] at hiff
    rw [if_neg fun hE => Bool.false_ne_true (hiff.2 hE), Option.map_none]
  | some y =>
    rw [hx] at hiff
    have hy := R.reads_of_accept? h hx
    rw [if_pos (hiff.1 rfl), Option.map_some, R.believed_eq hy, R.believed_eq h]

variable {e e' : Encoding T} {tracked tracked' S S' : List String} {t t' : DefaultTheory T}
  {facts facts' : List Formula}

theorem exists_reads_of_mem_accepted
    (h : R.Reads m facts (e.restricted tracked t S).ground) {x : T}
    (hx : x ∈ e.accepted tracked t S) : ∃ fs, R.Reads m fs x := by
  obtain ⟨y, hy, haccept⟩ := List.mem_filterMap.1 hx
  obtain ⟨fs, hfs⟩ := DefaultTheory.exists_reads_of_mem_found h hy
  exact ⟨fs, R.reads_of_accept? hfs haccept⟩

open Classical in
/-- **The accepted extensions of a candidate are those with acceptable beliefs.** -/
theorem map_believed_accepted (h : R.Reads m facts (e.restricted tracked t S).ground) :
    (e.accepted tracked t S).map (believed m) =
      ((e.restricted tracked t S).found.map (believed m)).filter fun E =>
        IsAcceptable m (e.testers S) E := by
  rw [accepted, List.map_filterMap, ← List.filterMap_eq_filter, List.filterMap_map]
  refine List.filterMap_congr fun x hx => ?_
  obtain ⟨fs, hfs⟩ := DefaultTheory.exists_reads_of_mem_found h hx
  rw [map_believed_accept? hfs, Function.comp_apply, Option.guard]
  simp only [decide_eq_true_eq]

open Classical in
/-- **Candidates with the same atoms have accepted extensions that answer alike**, in some other
order, if the rules and the facts are the same. -/
theorem accepted_perm (h : R.Reads m facts (e.restricted tracked t S).ground)
    (h' : R'.Reads m facts' (e.restricted tracked' t' S').ground)
    (hrules : SameElements t.rules t'.rules) (hfacts : SameElements facts facts')
    (hS : SameElements S S') :
    ((e.accepted tracked t S).map answers).Perm ((e.accepted tracked' t' S').map answers) := by
  have hbelieved : ((e.accepted tracked t S).map (believed m)).Perm
      ((e.accepted tracked' t' S').map (believed m)) := by
    have htests : (fun E => decide (IsAcceptable m (e.testers S) E)) =
        fun E => decide (IsAcceptable m (e.testers S') E) :=
      funext fun E => decide_eq_decide.2 (isAcceptable_congr (hS.map _))
    rw [map_believed_accepted h, map_believed_accepted h', htests]
    exact (DefaultTheory.found_perm h h' hrules hfacts).filter _
  exact Reading.answers_perm (fun _ => exists_reads_of_mem_accepted h)
    (fun _ => exists_reads_of_mem_accepted h') hbelieved

end Encoding

end DefaultLogic
