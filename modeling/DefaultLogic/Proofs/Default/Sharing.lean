import DefaultLogic.Default.Sharing
import DefaultLogic.Proofs.Default.Simulation
import DefaultLogic.Proofs.Theory.Sharing

/-!
# Default theories that share

As long as no token is taken twice, a computation in a memory *mirrors* one without sharing.  This
passes from the calls of a theory to every computation that is put together from them, so to default
reasoning as a whole.

* `Mirrors.bind`: computations mirror each other step by step.
* `mirrors_justified`, `mirrors_applyRules`, `mirrors_saturate`: the steps of a check.
* `mirrors_generates`: **the same rules generate extensions.**
* `mirrors_search`: **visitors that mirror each other meet the same extensions.**
-/

namespace DefaultLogic

open DefaultLogic.Sat

variable {solver : Solver} {m : Memory solver}

theorem Memory.Extends.trans {m m' m'' : Memory solver} (h : m.Extends m') (h' : m'.Extends m'') :
    m.Extends m'' := ⟨Nat.le_trans h.taken h'.taken, h.cells.trans h'.cells⟩

/-- A theory in a memory is seen as one without sharing. -/
structure SharedTheory.IsSeenAs (m : Memory solver) (t : SharedTheory)
    (u : ParaconsistentTheory solver) : Prop where
  livesIn : t.LivesIn m
  seen : t.seen m = u

theorem SharedTheory.IsSeenAs.of_extends {t : SharedTheory} {u : ParaconsistentTheory solver}
    (h : t.IsSeenAs m u) {m' : Memory solver} (hm : m.Extends m') : t.IsSeenAs m' u :=
  ⟨h.livesIn.of_extends hm, (h.livesIn.seen_eq hm).trans h.seen⟩

namespace InMemory

variable {α β α' β' : Type}

/-! ## Steps -/

/-- What a computation in a memory comes to is what one without sharing comes to: it logs the same,
its result is the same for the memory that it leaves, and this memory is good for other theories. -/
structure Reflects (m : Memory solver) (x : Logged (α × Memory solver)) (y : Logged β)
    (Same : Memory solver → α → β → Prop) : Prop where
  events : x.events = y.events
  same : Same x.value.2 x.value.1 y.value
  isSound : x.value.2.IsSound
  keeps : m.Extends x.value.2

/-- It does unless tokens are taken twice. -/
def Mirrors (m : Memory solver) (x : InMemory solver α) (y : Logged β)
    (Same : Memory solver → α → β → Prop) : Prop :=
  (x.run m).value.2.taken ≤ UInt64.size → Reflects m (x.run m) y Same

variable {x : InMemory solver α} {y : Logged β} {Same : Memory solver → α → β → Prop}
  {Same' : Memory solver → α' → β' → Prop}

theorem mirrors_pure {a : α} {b : β} (hm : m.IsSound) (h : Same m a b) :
    Mirrors m (pure a) (pure b) Same := fun _ => ⟨rfl, h, hm, .refl m⟩

/-- **Computations that mirror each other go on to mirror each other** if what follows does. -/
theorem Mirrors.bind {k : α → InMemory solver α'} {k' : β → Logged β'} (h : Mirrors m x y Same)
    (hk : ∀ a b m', Same m' a b → m'.IsSound → m.Extends m' → Mirrors m' (k a) (k' b) Same') :
    Mirrors m (x >>= k) (y >>= k') Same' := by
  intro htaken
  obtain ⟨hevents, hsame, hsound, hkeeps⟩ := h (Nat.le_trans ((k _).taken_le _) htaken)
  obtain ⟨hevents', hsame', hsound', hkeeps'⟩ := hk _ _ _ hsame hsound hkeeps htaken
  exact ⟨congrArg₂ (· ++ ·) hevents hevents', hsame', hsound', hkeeps.trans hkeeps'⟩

theorem Mirrors.start {b : β} {k : α → InMemory solver α'} {y : Logged β'}
    (h : Mirrors m x (pure b) Same)
    (hk : ∀ a m', Same m' a b → m'.IsSound → m.Extends m' → Mirrors m' (k a) y Same') :
    Mirrors m (x >>= k) y Same' := by
  intro htaken
  obtain ⟨hevents, hsame, hsound, hkeeps⟩ := h (Nat.le_trans ((k _).taken_le _) htaken)
  obtain ⟨hevents', hsame', hsound', hkeeps'⟩ := hk _ _ hsame hsound hkeeps htaken
  exact ⟨congrArg₂ (· ++ ·) hevents hevents', hsame', hsound', hkeeps.trans hkeeps'⟩

theorem Mirrors.map {f : α → α'} {g : β → β'} (h : Mirrors m x y Same)
    (hfg : ∀ a b m', Same m' a b → Same' m' (f a) (g b)) :
    Mirrors m (x >>= fun a => pure (f a)) (y >>= fun b => pure (g b)) Same' :=
  h.bind fun a b m' hab hm' _ => mirrors_pure hm' (hfg a b m' hab)

theorem Mirrors.imp {Same' : Memory solver → α → β → Prop} (h : Mirrors m x y Same)
    (himp : ∀ a b m', Same m' a b → Same' m' a b) : Mirrors m x y Same' := by
  intro htaken
  obtain ⟨hevents, hsame, hsound, hkeeps⟩ := h htaken
  exact ⟨hevents, himp _ _ _ hsame, hsound, hkeeps⟩

theorem mirrors_log (hm : m.IsSound) (e : Event) :
    Mirrors m (log e) (Logged.log e) fun _ _ _ => True := fun _ => ⟨rfl, trivial, hm, .refl m⟩

/-! ## Calls -/

structure SameAnswer (m : Memory solver) (a : Bool × SharedTheory)
    (b : Bool × ParaconsistentTheory solver) : Prop where
  answer : a.1 = b.1
  theory : a.2.IsSeenAs m b.2

variable {t : SharedTheory} {u : ParaconsistentTheory solver}

theorem mirrors_ask {question : ClassicalTheory solver → Logged (Bool × ClassicalTheory solver)}
    {y : Logged (Bool × ParaconsistentTheory solver)}
    (h : SharedTheory.Refines m (t.ask question m) y) :
    Mirrors m (ask t question) y SameAnswer := by
  refine fun _ => ⟨?_, ⟨h.answer, h.livesIn, h.seen⟩, h.isSound, h.keeps⟩
  show (t.ask question m).events ++ [] = _
  rw [List.append_nil, h.events]

theorem mirrors_satisfiable (hm : m.IsSound) (h : t.IsSeenAs m u) (f? : Option Formula) :
    Mirrors m (satisfiable f? t) (GroundLogic.satisfiable f? u) SameAnswer := by
  obtain ⟨ht, rfl⟩ := h
  exact mirrors_ask (SharedTheory.refines_satisfiable hm ht f?)

theorem mirrors_entails (hm : m.IsSound) (h : t.IsSeenAs m u) (f : Formula) :
    Mirrors m (entails f t) (GroundLogic.entails f u) SameAnswer := by
  obtain ⟨ht, rfl⟩ := h
  exact mirrors_ask (SharedTheory.refines_entails hm ht f)

theorem mirrors_compiledTheory (hm : m.IsSound) (h : t.IsSeenAs m u) :
    Mirrors m (compiledTheory t) u.compile fun m a b => a.2.IsSeenAs m b.2 := by
  obtain ⟨ht, rfl⟩ := h
  have h := SharedTheory.refines_compiledTheory hm ht
  refine fun _ => ⟨?_, ⟨h.livesIn, h.seen⟩, h.isSound, h.keeps⟩
  show (t.compiledTheory m).events ++ [] = _
  rw [List.append_nil, h.events]

theorem reflects_of_refines {t : SharedTheory} {m' : Memory solver}
    (h : SharedTheory.Refines m (pure ((), t, m')) (pure ((), u))) :
    Reflects m (pure (t, m')) (pure u) SharedTheory.IsSeenAs :=
  ⟨rfl, ⟨h.livesIn, h.seen⟩, h.isSound, h.keeps⟩

theorem mirrors_create (hm : m.IsSound) :
    Mirrors m create (pure {}) SharedTheory.IsSeenAs := fun htaken =>
  reflects_of_refines (SharedTheory.refines_create hm htaken)

theorem mirrors_add (hm : m.IsSound) (h : t.IsSeenAs m u) (f : Formula) :
    Mirrors m (add t f) (pure (GroundLogic.add u f)) SharedTheory.IsSeenAs := by
  obtain ⟨ht, rfl⟩ := h
  exact fun htaken => reflects_of_refines (SharedTheory.refines_add hm ht htaken f)

theorem mirrors_setInconsistent (hm : m.IsSound) (h : t.IsSeenAs m u) (names : List String) :
    Mirrors m (setInconsistent names t) (pure (u.setInconsistent names)) SharedTheory.IsSeenAs := by
  obtain ⟨ht, rfl⟩ := h
  intro htaken
  refine reflects_of_refines (SharedTheory.refines_setInconsistent hm ht names fun hnames => ?_)
  simp only [setInconsistent, SharedTheory.setInconsistent, if_neg hnames] at htaken
  exact htaken

theorem mirrors_addAll (hm : m.IsSound) (h : t.IsSeenAs m u) (fs : List Formula) :
    Mirrors m (GroundMonad.addAll t fs) (GroundMonad.addAll u fs) SharedTheory.IsSeenAs := by
  induction fs generalizing t u m with
  | nil => exact mirrors_pure hm h
  | cons f fs ih => exact (mirrors_add hm h f).bind fun _ _ _ h hm _ => ih hm h

theorem mirrors_visitList {σ : Type} {visit : α → σ → InMemory solver (Progress σ)}
    {visit' : α → σ → Logged (Progress σ)} (xs : List α)
    (h : ∀ x s m', m'.IsSound → m.Extends m' → Mirrors m' (visit x s) (visit' x s) fun _ => Eq)
    (hm : m.IsSound) (s : σ) :
    Mirrors m (Subsets.visitList visit xs s) (Subsets.visitList visit' xs s) fun _ => Eq := by
  induction xs generalizing m s with
  | nil => exact mirrors_pure hm rfl
  | cons x xs ih =>
    refine (h x s m hm (.refl m)).bind ?_
    rintro p _ m' rfl hm' hkeeps
    cases p with
    | done s => exact mirrors_pure hm' rfl
    | more s => exact ih (fun x s m'' hm'' hkeeps' => h x s m'' hm'' (hkeeps.trans hkeeps')) hm' s

end InMemory

/-! ## Visitors -/

namespace SharedVisitor

def Mirrors {σ : Type} (visit : SharedVisitor solver σ)
    (visit' : Visitor (ParaconsistentTheory solver) σ) : Prop :=
  ∀ m e x, m.IsSound → e.IsSeenAs m x → ∀ s,
    InMemory.Mirrors m (visit e s) (visit' x s) fun _ => Eq

theorem mirrors_entailment (f : Formula) (mode : Mode) :
    SharedVisitor.Mirrors (Visitor.entailmentIn (InMemory solver) f mode)
      (Visitor.entailment f mode) := by
  intro m e x hm he b
  cases mode with
  | credulous | skeptical =>
    refine (InMemory.mirrors_entails hm he f).map ?_
    rintro a _ _ ⟨hanswer, -⟩
    rw [hanswer]

end SharedVisitor

open InMemory

namespace SharedDefaultTheory

open DefaultTheory (Pass)

/-! ## Rules -/

section

variable {t : SharedTheory} {u : ParaconsistentTheory solver}

theorem mirrors_justified (hm : m.IsSound) (h : t.IsSeenAs m u) (rs : List (Rule × Nat)) :
    Mirrors m (DefaultTheory.justifiedIn (InMemory solver) rs t) (DefaultTheory.justified rs u)
      fun _ => Eq := by
  induction rs generalizing t u m with
  | nil => exact mirrors_pure hm rfl
  | cons r rs ih =>
    refine (mirrors_satisfiable hm h (some r.1.justification)).bind ?_
    rintro ⟨b, t⟩ ⟨_, u⟩ m' ⟨rfl, h⟩ hm' -
    refine (ih hm' h).map ?_
    rintro rest _ - rfl
    rfl

structure SamePass (m : Memory solver) (p : Pass SharedTheory)
    (q : Pass (ParaconsistentTheory solver)) : Prop where
  conclusions : p.conclusions.IsSeenAs m q.conclusions
  applied : p.applied = q.applied
  waiting : p.waiting = q.waiting

theorem mirrors_applyRules (hm : m.IsSound) (h : t.IsSeenAs m u) (chosen : List Nat)
    (rs : List (Rule × Nat)) :
    Mirrors m (DefaultTheory.applyRulesIn (InMemory solver) chosen rs t)
      (DefaultTheory.applyRules chosen rs u) fun m => Option.Rel (SamePass m) := by
  induction rs generalizing t u m with
  | nil => exact mirrors_pure hm (.some ⟨h, rfl, rfl⟩)
  | cons r rs ih =>
    refine (mirrors_entails hm h r.1.prerequisite).bind ?_
    rintro ⟨b, t⟩ ⟨_, u⟩ m' ⟨rfl, h⟩ hm' -
    dsimp only
    split
    · split
      · refine (mirrors_add hm' h r.1.consequent).bind fun t u m h hm _ => ?_
        refine (ih hm h).map fun _ _ m hpass => rel_map (fun _ _ hpq => ?_) hpass
        exact ⟨hpq.conclusions, congrArg (r.2 :: ·) hpq.applied, hpq.waiting⟩
      · exact mirrors_pure hm' .none
    · refine (ih hm' h).map fun _ _ m hpass => rel_map (fun _ _ hpq => ?_) hpass
      exact ⟨hpq.conclusions, hpq.applied, congrArg (r :: ·) hpq.waiting⟩

theorem mirrors_saturate (hm : m.IsSound) (h : t.IsSeenAs m u) (chosen : List Nat)
    (rs : List (Rule × Nat)) :
    Mirrors m (DefaultTheory.saturateIn (InMemory solver) chosen rs t)
      (DefaultTheory.saturate chosen rs u) fun _ => Eq := by
  induction hn : rs.length using Nat.strongRecOn generalizing rs t u m with
  | ind n ih =>
    rw [DefaultTheory.saturateIn, DefaultTheory.saturate, DefaultTheory.saturateIn]
    refine (mirrors_applyRules hm h chosen rs).bind fun p? q? m' hpass hm' _ => ?_
    cases hpass with
    | none => exact mirrors_pure hm' rfl
    | some hpq =>
      obtain ⟨hconclusions, happlied, hwaiting⟩ := hpq
      dsimp only
      rw [hwaiting, happlied]
      split
      · next hmore =>
        refine (ih _ (hn ▸ hmore.2) hm' hconclusions _ rfl).map ?_
        rintro applied? _ - rfl
        rfl
      · exact mirrors_pure hm' rfl

end

/-! ## Default theories -/

structure IsSeenAs (m : Memory solver) (t : SharedDefaultTheory)
    (u : DefaultTheory (ParaconsistentTheory solver)) : Prop where
  rules : t.rules = u.rules
  ground : t.ground.IsSeenAs m u.ground

variable {t : SharedDefaultTheory} {u : DefaultTheory (ParaconsistentTheory solver)}

theorem IsSeenAs.of_extends (h : t.IsSeenAs m u) {m' : Memory solver} (hm : m.Extends m') :
    t.IsSeenAs m' u := ⟨h.rules, h.ground.of_extends hm⟩

theorem IsSeenAs.mirrors_extensionBy (h : t.IsSeenAs m u) (hm : m.IsSound) (chosen : List Nat) :
    Mirrors m (t.extensionByIn (InMemory solver) chosen) (u.extensionByIn Logged chosen)
      SharedTheory.IsSeenAs := by
  have hconsequents : t.consequents chosen = u.consequents chosen := by
    rw [DefaultTheory.consequents, h.rules, DefaultTheory.consequents]
  rw [DefaultTheory.extensionByIn, hconsequents]
  exact mirrors_addAll hm h.ground _

/-- **The same rules generate extensions**, though the theories that are checked share a memory. -/
theorem IsSeenAs.mirrors_generates (h : t.IsSeenAs m u) (hm : m.IsSound) (chosen : List Nat) :
    Mirrors m (t.generatesIn (InMemory solver) chosen) (u.generates chosen) fun _ => Eq := by
  have hindexed : t.indexed = u.indexed := congrArg List.zipIdx h.rules
  rw [DefaultTheory.generatesIn, hindexed, DefaultTheory.generates, DefaultTheory.generatesIn]
  refine (h.mirrors_extensionBy hm chosen).bind fun _ _ m' hbeliefs hm' hkeeps => ?_
  refine (mirrors_justified hm' hbeliefs _).bind ?_
  rintro rs _ m'' rfl hm'' hkeeps'
  split
  · have hground := h.ground.of_extends (hkeeps.trans hkeeps')
    refine (mirrors_saturate hm'' hground chosen rs).bind ?_
    rintro applied? _ m' rfl hm' -
    cases applied? with
    | none | some applied => exact mirrors_pure hm' rfl
  · exact mirrors_pure hm'' rfl

theorem mirrors_create (hm : m.IsSound) :
    Mirrors m create (pure ⟨[], {}⟩) IsSeenAs :=
  (InMemory.mirrors_create hm).start fun _ _ h hm' _ => mirrors_pure hm' ⟨rfl, h⟩

/-! ## Searches -/

/-- **Visitors that mirror each other meet the same extensions**, in the same order. -/
theorem IsSeenAs.mirrors_search (h : t.IsSeenAs m u) (hm : m.IsSound) {σ : Type}
    {visit : SharedVisitor solver σ} {visit' : Visitor (ParaconsistentTheory solver) σ}
    (hvisit : visit.Mirrors visit') (s : σ) :
    Mirrors m (t.searchIn (InMemory solver) visit s) (u.search visit' s) fun _ => Eq := by
  rw [DefaultTheory.searchIn, DefaultTheory.search, DefaultTheory.searchIn, Subsets.visitBySize_eq,
    Subsets.visitBySize_eq, h.rules]
  refine mirrors_visitList _ (fun chosen s m' hm' hkeeps => ?_) hm s
  have ht := h.of_extends hkeeps
  refine (ht.mirrors_generates hm' chosen).bind ?_
  rintro b _ m'' rfl hm'' hkeeps'
  split
  · refine (mirrors_log hm'' (.found chosen)).bind fun _ _ m₃ _ hm₃ hkeeps'' => ?_
    have ht' := ht.of_extends (hkeeps'.trans hkeeps'')
    refine (ht'.mirrors_extensionBy hm₃ chosen).bind fun e x m₄ he hm₄ _ => ?_
    exact hvisit m₄ e x hm₄ he s
  · exact mirrors_pure hm'' rfl

/-- A default theory in a memory acts as one without sharing, whatever other theories do to the
memory in the meantime. -/
structure ActsAs (m : Memory solver) (t : SharedDefaultTheory)
    (u : DefaultTheory (ParaconsistentTheory solver)) : Prop where
  generates : ∀ m', m.Extends m' → m'.IsSound → ∀ chosen,
    Mirrors m' (t.generatesIn (InMemory solver) chosen) (u.generates chosen) fun _ => Eq
  search : ∀ m', m.Extends m' → m'.IsSound → ∀ {σ : Type} (visit : SharedVisitor solver σ) visit',
    visit.Mirrors visit' → ∀ s,
      Mirrors m' (t.searchIn (InMemory solver) visit s) (u.search visit' s) fun _ => Eq
  entails : ∀ m', m.Extends m' → m'.IsSound → ∀ mode f,
    Mirrors m'
      (t.searchIn (InMemory solver) (Visitor.entailmentIn (InMemory solver) f mode)
        (Visitor.initial mode))
      (u.search (Visitor.entailment f mode) (Visitor.initial mode)) fun _ => Eq

theorem IsSeenAs.actsAs (h : t.IsSeenAs m u) : t.ActsAs m u where
  generates _ hm hsound := (h.of_extends hm).mirrors_generates hsound
  search _ hm hsound _ _ _ hvisit := (h.of_extends hm).mirrors_search hsound hvisit
  entails _ hm hsound mode f := (h.of_extends hm).mirrors_search hsound
    (SharedVisitor.mirrors_entailment f mode) (Visitor.initial mode)

end SharedDefaultTheory

end DefaultLogic
