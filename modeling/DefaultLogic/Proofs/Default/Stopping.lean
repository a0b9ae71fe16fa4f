import DefaultLogic.Proofs.Default.Agreement
import DefaultLogic.Proofs.Default.Enumeration
import DefaultLogic.Proofs.Default.Pruning

/-!
# Searches that stop early

A visitor may be done before the search is.  It sits in the visitor that accepts extensions, which
the search of a candidate shows extensions, which the search of all candidates calls.  Whether it is
done passes through all of them.

* `exists_wasShown`: a visitor of a list is shown the elements up to the first at which it is done.
* `Theory.visitClassical_eq`, `Theory.visitUnder_eq`: a search visits the list of all extensions.
* `state_visitList_entailment`: so an entailment question is answered as if all were seen.
* `HoldSame.prepare`: a renamed theory may be prepared for a query before rules are applied or
  after.
* `searches_stop`: **stopping early never changes an answer.**
-/

namespace DefaultLogic

open DefaultLogic.Sat

variable {T σ : Type}

/-! ## What a visitor is shown -/

/-- A visitor that keeps what it is shown. -/
def Visitor.recorded (visit : Visitor T σ) : Visitor T (List T × σ) := fun x r => do
  let progress ← visit x r.2
  pure (progress.map (r.1 ++ [x], ·))

/-- Whether a visitor was shown the elements of `all`, in order, up to the first at which it was
done: these are `met`, and it has gathered `s'` out of them. -/
structure WasShown (visit : Visitor T σ) (s : σ) (all met : List T) (stopped : Bool) (s' : σ) :
    Prop where
  isPrefix : met <+: all
  outcome : (Subsets.visitList visit met s).value = if stopped then .done s' else .more s'
  wantedMore : ∀ n < met.length, (Subsets.visitList visit (met.take n) s).value.isDone = false
  complete : stopped = false → met = all

theorem wasShown_nil (visit : Visitor T σ) (s : σ) : WasShown visit s [] [] false s :=
  ⟨List.prefix_refl [], rfl, fun _ hn => absurd hn (Nat.not_lt_zero _), fun _ => rfl⟩

theorem wasShown_done {visit : Visitor T σ} {x : T} {s s' : σ} (h : (visit x s).value = .done s')
    (all : List T) : WasShown visit s (x :: all) [x] true s' where
  isPrefix := ⟨all, rfl⟩
  outcome := by
    rw [Subsets.visitList_singleton]
    exact h
  wantedMore n hn := by
    obtain rfl : n = 0 := Nat.lt_one_iff.1 hn
    rfl
  complete := nofun

theorem WasShown.more {visit : Visitor T σ} {x : T} {s r s' : σ} {all met : List T} {stopped : Bool}
    (h : WasShown visit r all met stopped s') (hx : (visit x s).value = .more r) :
    WasShown visit s (x :: all) (x :: met) stopped s' where
  isPrefix := (List.prefix_cons_inj x).2 h.isPrefix
  outcome := by
    rw [Subsets.visitList, Logged.value_bind, hx]
    exact h.outcome
  wantedMore n hn := by
    cases n with
    | zero => rfl
    | succ n =>
      rw [List.take_succ_cons, Subsets.visitList, Logged.value_bind, hx]
      exact h.wantedMore n (Nat.lt_of_succ_lt_succ hn)
  complete hstopped := congrArg (x :: ·) (h.complete hstopped)

/-- **A visitor is shown the elements up to the first at which it is done**, and to keep them
changes nothing. -/
theorem exists_wasShown (visit : Visitor T σ) (xs kept : List T) (s : σ) :
    let progress := (Subsets.visitList visit xs s).value
    ∃ met, (Subsets.visitList visit.recorded xs (kept, s)).value =
        progress.map (kept ++ met, ·) ∧
      WasShown visit s xs met progress.isDone progress.state := by
  induction xs generalizing kept s with
  | nil =>
    refine ⟨[], ?_, wasShown_nil visit s⟩
    rw [List.append_nil]
    rfl
  | cons x xs ih =>
    have hrecorded : (visit.recorded x (kept, s)).value =
        (visit x s).value.map (kept ++ [x], ·) := rfl
    rw [Subsets.visitList, Subsets.visitList, Logged.value_bind, Logged.value_bind, hrecorded]
    cases hx : (visit x s).value with
    | done r => exact ⟨[x], rfl, wasShown_done hx xs⟩
    | more r =>
      obtain ⟨met, hmet, hshown⟩ := ih (kept ++ [x]) r
      refine ⟨x :: met, ?_, hshown.more hx⟩
      rw [List.append_cons kept x met]
      exact hmet

theorem WasShown.eq_of_exists {x : T} {all met : List T} {stopped found : Bool}
    (h : WasShown Visitor.exists? false (x :: all) met stopped found) :
    (stopped, met, found) = (true, [x], true) := by
  obtain ⟨rest, hrest⟩ := h.isPrefix
  have houtcome := h.outcome
  cases met with
  | nil =>
    cases stopped with
    | true => cases houtcome
    | false => cases h.complete rfl
  | cons y met =>
    obtain ⟨rfl, -⟩ := List.cons.inj hrest
    have hdone : Progress.done true = if stopped then .done found else .more found := houtcome
    cases stopped with
    | false => cases hdone
    | true =>
      cases hdone
      cases met with
      | nil => rfl
      | cons z met => cases h.wantedMore 1 (Nat.succ_lt_succ (Nat.succ_pos _))

/-- Whether a search, which tells if it was stopped and what was gathered, shows all visitors the
given extensions until they are done. -/
def ShowsUntilDone (all : List T) (search : {σ : Type} → Visitor T σ → σ → Bool × σ) : Prop :=
  ∀ {σ : Type} (visit : Visitor T σ) (s : σ),
    let result := search visit.recorded ([], s)
    WasShown visit s all result.2.1 result.1 result.2.2 ∧
      search visit s = (result.1, result.2.2)

theorem showsUntilDone_of_visitList {all : List T}
    {search : {σ : Type} → Visitor T σ → σ → Bool × σ}
    (h : ∀ {σ : Type} (visit : Visitor T σ) (s : σ), search visit s =
      let progress := (Subsets.visitList visit all s).value
      (progress.isDone, progress.state)) : ShowsUntilDone all search := by
  intro σ visit s
  obtain ⟨met, hmet, hshown⟩ := exists_wasShown visit all [] s
  dsimp only
  rw [h, h, hmet]
  dsimp only
  rw [Progress.isDone_map, Progress.state_map]
  exact ⟨hshown, rfl⟩

theorem value_visitList_upTo_none (xs : List T) :
    (Subsets.visitList (Visitor.upTo none) xs []).value = .more xs := by
  rw [Subsets.value_visitList_of_more fun _ _ _ => rfl, List.foldl_append_eq_append,
    List.nil_append, ← List.flatMap_def, ← List.map_eq_flatMap, List.map_id_fun', id_eq]

/-! ## Questions -/

/-- Whether something holds of some element (credulously) or of every element (skeptically). -/
def Mode.Among {α : Type} : Mode → List α → (α → Prop) → Prop
  | .credulous, xs, p => ∃ x ∈ xs, p x
  | .skeptical, xs, p => ∀ x ∈ xs, p x

theorem Mode.among_map_iff {α β : Type} (mode : Mode) (g : α → β) (xs : List α) (p : β → Prop) :
    mode.Among (xs.map g) p ↔ mode.Among xs fun x => p (g x) := by
  cases mode with
  | credulous => simp [Mode.Among]
  | skeptical => exact List.forall_mem_map

theorem Mode.among_congr_mem {α : Type} (mode : Mode) {xs : List α} {p q : α → Prop}
    (h : ∀ x ∈ xs, p x ↔ q x) : mode.Among xs p ↔ mode.Among xs q := by
  cases mode with
  | credulous => exact exists_congr fun x => and_congr_right fun hx => h x hx
  | skeptical => exact forall₂_congr h

theorem Mode.among_congr {α β : Type} {xs : List α} {ys : List β} {p : α → Prop} {q : β → Prop}
    (h : List.Forall₂ (fun x y => p x ↔ q y) xs ys) (mode : Mode) :
    mode.Among xs p ↔ mode.Among ys q := by
  induction h with
  | nil => cases mode <;> simp [Mode.Among]
  | cons hxy _ ih =>
    cases mode with
    | credulous => simpa [Mode.Among, hxy] using or_congr_right ih
    | skeptical => simpa [Mode.Among, hxy] using and_congr_right fun _ => ih

/-- **An entailment question is answered as if all extensions were seen.** -/
theorem state_visitList_entailment [GroundLogic T] (f : Formula) (mode : Mode) (xs : List T) :
    (Subsets.visitList (Visitor.entailment f mode) xs (Visitor.initial mode)).value.state = true ↔
      mode.Among xs fun x => (GroundLogic.entails f x).value.1 = true := by
  induction xs with
  | nil => cases mode <;> simp [Mode.Among, Subsets.visitList, Visitor.initial, Progress.state]
  | cons x xs ih =>
    rw [Subsets.visitList, Logged.value_bind]
    cases mode with
    | credulous =>
      have hvisit : (Visitor.entailment f .credulous x (Visitor.initial .credulous)).value =
          if (GroundLogic.entails f x).value.1 then .done true else .more false := rfl
      rw [hvisit]
      cases hx : (GroundLogic.entails f x).value.1 with
      | true => exact iff_of_true rfl ⟨x, List.mem_cons_self, hx⟩
      | false => simpa [Mode.Among, Visitor.initial, hx] using ih
    | skeptical =>
      have hvisit : (Visitor.entailment f .skeptical x (Visitor.initial .skeptical)).value =
          if (GroundLogic.entails f x).value.1 then .more true else .done false := rfl
      rw [hvisit]
      cases hx : (GroundLogic.entails f x).value.1 with
      | true => simpa [Mode.Among, Visitor.initial, hx] using ih
      | false =>
        refine iff_of_false Bool.false_ne_true fun h => ?_
        exact Bool.false_ne_true (hx.symm.trans (h x List.mem_cons_self))

/-! ## Searches of theories -/

namespace Theory

section

variable [GroundLogic T] (e : Encoding T) (solver : Solver) (t : Theory)

/-- A search of the classical extensions: whether it was stopped, and what was gathered. -/
def visitClassical (visit : Visitor (ClassicalTheory solver) σ) (s : σ) : Bool × σ :=
  let progress := ((t.classical solver).search visit s).value
  (progress.isDone, progress.state)

/-- A search of the paraconsistent extensions: whether the report tells that it was stopped, and
what was gathered. -/
def visitUnder (visit : Visitor T σ) (s : σ) : Bool × σ :=
  let result := (t.searchReport e visit s).value
  (result.1.stopped, result.2)

def prepared (f : Formula) : DefaultTheory T :=
  let encoded := e.encode t.rules t.facts
  { encoded with ground := e.prepare t.atoms f encoded.ground }

theorem visitClassical_eq (visit : Visitor (ClassicalTheory solver) σ) (s : σ) :
    t.visitClassical solver visit s =
      let progress := (Subsets.visitList visit (t.classical solver).found s).value
      (progress.isDone, progress.state) := by
  rw [visitClassical, DefaultTheory.value_search_found]

variable {t}

theorem visitUnder_eq (ht : t.IsTracked) (visit : Visitor T σ) (s : σ) :
    t.visitUnder e visit s =
      let shown := e.shown t.atoms (e.encode t.rules t.facts) (Subsets.bySize t.atoms)
      let progress := (Subsets.visitList visit shown s).value
      (progress.isDone, progress.state) := by
  obtain ⟨report, hsearch, hstopped, -⟩ :=
    Encoding.exists_report_of_search (e := e) (t := e.encode t.rules t.facts) ht.nodup visit s
  rw [visitUnder, searchReport, hsearch]
  dsimp only
  rw [hstopped]

/-- **A question under an encoding is about the extensions of the prepared theory.** -/
theorem entailsUnder_iff (ht : t.IsTracked) (mode : Mode) (f : Formula) :
    (t.entailsUnder e mode f).value = true ↔
      mode.Among (e.shown t.atoms (t.prepared e f) (Subsets.bySize t.atoms)) fun x =>
        (GroundLogic.entails (e.transform f) x).value.1 = true := by
  have hvalue : (t.entailsUnder e mode f).value =
      (e.search t.atoms (t.prepared e f) (Visitor.entailment (e.transform f) mode)
        (Visitor.initial mode)).value.2 := rfl
  obtain ⟨report, hsearch, -⟩ := Encoding.exists_report_of_search (e := e) (t := t.prepared e f)
    ht.nodup (Visitor.entailment (e.transform f) mode) (Visitor.initial mode)
  rw [hvalue, hsearch]
  exact state_visitList_entailment _ mode _

end

end Theory

/-! ## Questions to renamed theories -/

variable {solver : Solver}

/-- **Assertions about the further atoms of a query may also be added to what rules made of a
theory.** -/
theorem HoldSame.prepare {hs : solver.Decides} {known inconsistent : List String}
    {fs gs : List Formula} {x : ParaconsistentTheory solver} {y : ClassicalTheory solver}
    (h : HoldSame hs known inconsistent fs gs x y) (hsub : inconsistent ⊆ known)
    (further : List String) :
    HoldSame hs (known ++ further) inconsistent fs (gs ++ classicalAssertions further known) x
      (GroundLogic.addAll y (classicalAssertions further known)) where
  native := h.native
  renamed := (ClassicalTheory.reading hs).addAll _ h.renamed
  subset f hf := List.Subset.trans (h.subset f hf) (List.subset_append_left known further)
  mem g := by
    rw [List.mem_append, h.mem, or_assoc, or_comm (a := g ∈ classicalAssertions known inconsistent),
      mem_classicalAssertions_append hsub]

namespace Theory

variable {t : Theory}

theorem forall₂_related (hs : solver.Decides) (ht : t.IsTracked)
    (hplain : ∀ a ∈ t.atoms, IsPlain a) :
    List.Forall₂ (fun x y => ∃ S fs gs, S ⊆ t.atoms ∧ HoldSame hs t.atoms S fs gs x y)
      (t.visitUnder (.native solver) (Visitor.upTo none) []).2
      (t.visitUnder (.renamed solver) (Visitor.upTo none) []).2 := by
  have hknown : ∀ a ∈ t.atoms ++ [], IsPlain a := by
    rw [List.append_nil]
    exact hplain
  have hcorresponds := fun (S : List String) (hS : S.Sublist t.atoms) =>
    corresponds hs ht hknown hS.subset
  refine (Encoding.search_agrees hcorresponds ?_ .nil).2
  rintro S hS chosen x y - - ⟨fs, gs, hsame⟩ xs ys hxs
  rw [List.append_nil] at hsame
  exact upTo_agrees none ⟨S, fs, gs, hS.subset, hsame⟩ hxs

theorem forall₂_entails (hs : solver.Decides) (ht : t.IsTracked) (hplain : ∀ a ∈ t.atoms, IsPlain a)
    {f : Formula} (hf : ∀ a ∈ f.occurrences, IsPlain a) :
    List.Forall₂ (fun x y => (GroundLogic.entails f x).value.1 = true ↔
        (GroundLogic.entails f.fullPnnf
          (GroundLogic.addAll y (classicalAssertions f.atoms t.atoms))).value.1 = true)
      (t.visitUnder (.native solver) (Visitor.upTo none) []).2
      (t.visitUnder (.renamed solver) (Visitor.upTo none) []).2 := by
  have hknown : ∀ a ∈ t.atoms ++ f.atoms, IsPlain a :=
    List.forall_mem_append.2 ⟨hplain, fun a ha => hf a (List.mem_eraseDups.1 ha)⟩
  have hquery : f.occurrences ⊆ t.atoms ++ f.atoms := fun a ha =>
    List.mem_append_right _ (List.mem_eraseDups.2 ha)
  refine (forall₂_related hs ht hplain).imp ?_
  rintro x y ⟨S, fs, gs, hsub, hsame⟩
  rw [(hsame.prepare hsub f.atoms).entails_iff hknown hquery]

/-- **Preparing a renamed theory for a question changes neither the candidates nor the rules that
are found.** -/
theorem exists_visits_prepared_iff (hs : solver.Decides) (ht : t.IsTracked) {f : Formula}
    (hknown : ∀ a ∈ t.atoms ++ f.atoms, IsPlain a) {S : List String} (hS : S ⊆ t.atoms)
    (chosen : List Nat) :
    (∃ y, (Encoding.renamed solver).Visits t.atoms (t.prepared (.renamed solver) f) S chosen y) ↔
      ∃ y, (Encoding.renamed solver).Visits t.atoms
        ((Encoding.renamed solver).encode t.rules t.facts) S chosen y := by
  have hnone : ∀ a ∈ t.atoms ++ [], IsPlain a := by
    rw [List.append_nil]
    exact (List.forall_mem_append.1 hknown).1
  have hprepared := (corresponds hs ht hknown hS).exists_visits_iff chosen
  have hplain := (corresponds hs ht hnone hS).exists_visits_iff chosen
  exact hprepared.symm.trans hplain

theorem report_prepared_eq (hs : solver.Decides) (ht : t.IsTracked) {f : Formula}
    (hknown : ∀ a ∈ t.atoms ++ f.atoms, IsPlain a) (limit? : Option Nat) :
    ((Encoding.renamed solver).search t.atoms (t.prepared (.renamed solver) f)
        (Visitor.upTo limit?) []).value.1 =
      (t.searchReport (.renamed solver) (Visitor.upTo limit?) []).value.1 := by
  let Any : ParaconsistentTheory solver → ClassicalTheory solver → Prop := fun _ _ => True
  have hagrees : ∀ x y xs ys, List.Forall₂ Any xs ys →
      (Visitor.upTo limit? x xs).value.Agrees (List.Forall₂ Any)
        (Visitor.upTo limit? y ys).value := fun x y xs ys h => upTo_agrees limit? trivial h
  have hplain := (List.forall_mem_append.1 hknown).1
  have hcorresponds := fun (S : List String) (hS : S.Sublist t.atoms) =>
    corresponds hs ht hknown hS.subset
  have hprepared := Encoding.search_agrees hcorresponds (fun _ _ _ x y _ _ _ => hagrees x y) .nil
  have hown := searchReport_agrees hs ht hplain (fun _ _ x y _ => hagrees x y) .nil
  exact hprepared.1.symm.trans hown.1

/-! ## All kinds -/

theorem visitClassical_upTo_none (t : Theory) :
    (t.visitClassical solver (Visitor.upTo none) []).2 = (t.classical solver).found := by
  rw [visitClassical_eq, value_visitList_upTo_none]
  rfl

theorem visitUnder_upTo_none [GroundLogic T] (e : Encoding T) (ht : t.IsTracked) :
    (t.visitUnder e (Visitor.upTo none) []).2 =
      e.shown t.atoms (e.encode t.rules t.facts) (Subsets.bySize t.atoms) := by
  rw [visitUnder_eq e ht]
  dsimp only
  rw [value_visitList_upTo_none]
  rfl

/-- **A question about the classical extensions is about all of them.** -/
theorem entails_classical_iff (t : Theory) (mode : Mode) (f : Formula) :
    (t.entails solver mode f .classical).value = true ↔
      mode.Among (t.classical solver).found fun x =>
        (GroundLogic.entails f x).value.1 = true := by
  rw [entails, Logged.value_map, DefaultTheory.value_search_found]
  exact state_visitList_entailment f mode _

theorem extensionsUnder_eq [GroundLogic T] (e : Encoding T) (ht : t.IsTracked) :
    (Prod.snd <$> t.searchReport e Visitor.collect []).value =
      (e.shown t.atoms (e.encode t.rules t.facts) (Subsets.bySize t.atoms)).map
        GroundLogic.formulas := by
  rw [Logged.value_map]
  exact Encoding.value_search_collect ht.nodup

/-- **Stopping early never changes an answer.**  Under each kind of default logic a visitor is shown
the extensions in order, up to the first at which it is done, and the search tells whether it was.
So an entailment question is answered by all extensions.  Under the renaming encoding each is then
prepared for the question; preparing the theory beforehand, as the search does, changes neither
which sets of atoms and of rules are found nor the report. -/
theorem searches_stop (solver : Solver) (ss : List Statement) :
    let t := Theory.ofStatements ss
    let classical := (t.visitClassical solver (Visitor.upTo none) []).2
    let native := (t.visitUnder (.native solver) (Visitor.upTo none) []).2
    let renamed := (t.visitUnder (.renamed solver) (Visitor.upTo none) []).2
    ((t.extensions solver .classical).value = classical.map GroundLogic.formulas ∧
        (t.extensions solver .native).value = native.map GroundLogic.formulas ∧
        (t.extensions solver .renamed).value = renamed.map GroundLogic.formulas) ∧
      (ShowsUntilDone classical (t.visitClassical solver) ∧
        ShowsUntilDone native (t.visitUnder (.native solver)) ∧
        ShowsUntilDone renamed (t.visitUnder (.renamed solver))) ∧
      ∀ mode f,
        ((t.entails solver mode f .classical).value = true ↔
          mode.Among classical fun x => (GroundLogic.entails f x).value.1 = true) ∧
        ((t.entails solver mode f .native).value = true ↔
          mode.Among native fun x => (GroundLogic.entails f x).value.1 = true) ∧
        (solver.Decides → (∀ s ∈ ss, ∀ a ∈ s.occurrences, IsPlain a) →
          (∀ a ∈ f.occurrences, IsPlain a) →
          ((t.entails solver mode f .renamed).value = true ↔ mode.Among renamed fun x =>
            (GroundLogic.entails f.fullPnnf
              (GroundLogic.addAll x (classicalAssertions f.atoms t.atoms))).value.1 = true) ∧
          let e : Encoding (ClassicalTheory solver) := .renamed solver
          let encoded := e.encode t.rules t.facts
          (∀ S ⊆ t.atoms, ∀ chosen, (∃ x, e.Visits t.atoms (t.prepared e f) S chosen x) ↔
            ∃ x, e.Visits t.atoms encoded S chosen x) ∧
          ∀ limit?, (e.search t.atoms (t.prepared e f) (Visitor.upTo limit?) []).value.1 =
            (e.search t.atoms encoded (Visitor.upTo limit?) []).value.1) := by
  intro t classical native renamed
  have ht : t.IsTracked := isTracked_ofStatements ss
  have hclassical : classical = (t.classical solver).found := t.visitClassical_upTo_none
  have hnative : native = _ := visitUnder_upTo_none (.native solver) ht
  have hrenamed : renamed = _ := visitUnder_upTo_none (.renamed solver) ht
  have hentails : ∀ mode f, (t.entails solver mode f .native).value = true ↔
      mode.Among native fun x => (GroundLogic.entails f x).value.1 = true := by
    intro mode f
    rw [hnative]
    exact entailsUnder_iff (.native solver) ht mode f
  refine ⟨⟨?_, ?_, ?_⟩, ⟨?_, ?_, ?_⟩, fun mode f => ⟨?_, hentails mode f, fun hs hss hf => ?_⟩⟩
  · rw [hclassical]
    exact t.extensions_classical_eq
  · rw [hnative]
    exact extensionsUnder_eq (.native solver) ht
  · rw [hrenamed]
    exact extensionsUnder_eq (.renamed solver) ht
  · rw [hclassical]
    exact showsUntilDone_of_visitList (t.visitClassical_eq solver)
  · rw [hnative]
    exact showsUntilDone_of_visitList (visitUnder_eq (.native solver) ht)
  · rw [hrenamed]
    exact showsUntilDone_of_visitList (visitUnder_eq (.renamed solver) ht)
  · rw [hclassical]
    exact t.entails_classical_iff mode f
  · have hplain : ∀ a ∈ t.atoms, IsPlain a := forall_mem_atoms_ofStatements hss
    have hknown : ∀ a ∈ t.atoms ++ f.atoms, IsPlain a :=
      List.forall_mem_append.2 ⟨hplain, fun a ha => hf a (List.mem_eraseDups.1 ha)⟩
    have hagree : (t.entails solver mode f .native).value =
        (t.entails solver mode f .renamed).value := entailsUnder_agrees hs ht hplain hf mode
    refine ⟨?_, fun S hS chosen => ?_, fun limit? => ?_⟩
    · rw [← hagree, hentails]
      exact Mode.among_congr (forall₂_entails hs ht hplain hf) mode
    · exact exists_visits_prepared_iff hs ht hknown hS chosen
    · exact report_prepared_eq hs ht hknown limit?

/-- A visitor that wants one extension is shown the first of two, of the classical ones of rules in
conflict and of the paraconsistent ones of facts in conflict.  A question takes both to be answered,
also if it has an atom that is not tracked. -/
theorem searches_stop_either :
    let ss : List Statement := [.formula (.or [.atom "a", .atom "b"]), .formula (.not (.atom "a")),
      .formula (.not (.atom "b"))]
    let rs : List Statement := [.formula (.atom "bird"),
      .rule ⟨.atom "bird", .atom "flies", .atom "flies"⟩,
      .rule ⟨.atom "bird", .not (.atom "flies"), .not (.atom "flies")⟩]
    let t := Theory.ofStatements ss
    let u := Theory.ofStatements rs
    let f : Formula := .or [.atom "a", .atom "c"]
    let classical := (u.visitClassical solve (Visitor.upTo none) []).2
    let native := (t.visitUnder (.native solve) (Visitor.upTo none) []).2
    let renamed := (t.visitUnder (.renamed solve) (Visitor.upTo none) []).2
    let Flies (x : ClassicalTheory solve) : Prop :=
      (GroundLogic.entails (.atom "flies") x).value.1 = true
    let Entails (x : ClassicalTheory solve) : Prop := (GroundLogic.entails f.fullPnnf
      (GroundLogic.addAll x (classicalAssertions f.atoms t.atoms))).value.1 = true
    solve.Decides ∧ (∀ s ∈ ss, ∀ a ∈ s.occurrences, IsPlain a) ∧
      (∀ a ∈ f.occurrences, IsPlain a) ∧
      (∃ x y, classical = [x, y] ∧
        u.visitClassical solve Visitor.exists?.recorded ([], false) = (true, [x], true)) ∧
      (∃ x ∈ classical, Flies x) ∧ (¬∀ x ∈ classical, Flies x) ∧
      (∃ x y, native = [x, y] ∧
        t.visitUnder (.native solve) Visitor.exists?.recorded ([], false) = (true, [x], true)) ∧
      (∃ x ∈ renamed, Entails x) ∧ ¬∀ x ∈ renamed, Entails x := by
  intro ss rs t u f classical native renamed Flies Entails
  have hss : ∀ s ∈ ss, ∀ a ∈ s.occurrences, IsPlain a := by
    have hlast : ∀ s ∈ ss, ∀ a ∈ s.occurrences, a.toList.getLast? ≠ some '-' := by
      decide
    exact fun s hmem a ha => isPlain_of_getLast? (hlast s hmem a ha)
  have hf : ∀ a ∈ f.occurrences, IsPlain a := by
    have hlast : ∀ a ∈ f.occurrences, a.toList.getLast? ≠ some '-' := by
      decide
    exact fun a ha => isPlain_of_getLast? (hlast a ha)
  obtain ⟨⟨-, hextensions, -⟩, ⟨-, hshows, -⟩, hentails⟩ := searches_stop solve ss
  obtain ⟨⟨hextensions', -⟩, ⟨hshows', -⟩, hentails'⟩ := searches_stop solve rs
  refine ⟨solve_decides, hss, hf, ?_, ?_, ?_, ?_, ?_, ?_⟩
  · have hlength : classical.length = 2 := by
      have hcount : (u.extensions solve .classical).value.length = 2 := by
        cbv
      rw [hextensions', List.length_map] at hcount
      exact hcount
    obtain ⟨x, y, hxy⟩ := List.length_eq_two.1 hlength
    refine ⟨x, y, hxy, ?_⟩
    have hshown : WasShown Visitor.exists? false classical _ _ _ :=
      (hshows' Visitor.exists? false).1
    rw [hxy] at hshown
    exact hshown.eq_of_exists
  · refine (hentails' .credulous (.atom "flies")).1.1 ?_
    cbv
  · refine mt (hentails' .skeptical (.atom "flies")).1.2 (ne_true_of_eq_false ?_)
    cbv
  · have hlength : native.length = 2 := by
      have hcount : (t.extensions solve .native).value.length = 2 := by
        cbv
      rw [hextensions, List.length_map] at hcount
      exact hcount
    obtain ⟨x, y, hxy⟩ := List.length_eq_two.1 hlength
    refine ⟨x, y, hxy, ?_⟩
    have hshown : WasShown Visitor.exists? false native _ _ _ := (hshows Visitor.exists? false).1
    rw [hxy] at hshown
    exact hshown.eq_of_exists
  · refine ((hentails .credulous f).2.2 solve_decides hss hf).1.1 ?_
    cbv
  · refine mt ((hentails .skeptical f).2.2 solve_decides hss hf).1.2 (ne_true_of_eq_false ?_)
    cbv

end Theory

end DefaultLogic
