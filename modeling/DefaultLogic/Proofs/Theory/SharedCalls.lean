import DefaultLogic.Proofs.Theory.Sharing

/-!
# Calls on theories that share

Paraconsistent theories stand in a list and share what they compile through one memory.  Beside them
runs the record of what each theory was told: its formulas, and the inconsistent atoms that were
declared last.

* `run_refines`: one call does what it does on theories that do not share.
* `runSeen_follows`: there it answers as classical theories do that are made on the spot from what
  was told.
-/

namespace DefaultLogic

open DefaultLogic.Sat

/-- A call, on the theory at a place where there is one. -/
inductive SharedCall where
  | create
  /-- A token is taken for something else. -/
  | takeToken
  | clone (place : Nat)
  | add (place : Nat) (f : Formula)
  | setInconsistent (place : Nat) (names : List String)
  | satisfiable (place : Nat) (f? : Option Formula)
  | entails (place : Nat) (f : Formula)
  | compiledTheory (place : Nat)

inductive SharedAnswer (solver : Solver) where
  | nothing
  | truth (b : Bool)
  | theory (c : ClassicalTheory solver)

structure Family (solver : Solver) where
  memory : Memory solver := {}
  theories : List SharedTheory := []

variable {solver : Solver}

namespace Family

def empty (taken : Nat) : Family solver := ⟨{ taken := taken }, []⟩

/-- Calls the theory at a place, which then stands there as the call leaves it. -/
def on {α : Type} (place : Nat) (answer : α → SharedAnswer solver)
    (call : SharedTheory → Memory solver → Logged (α × SharedTheory × Memory solver))
    (s : Family solver) : Logged (SharedAnswer solver × Family solver) :=
  match s.theories[place]? with
  | none => pure (.nothing, s)
  | some t => do
    let (a, t, m) ← call t s.memory
    pure (answer a, ⟨m, s.theories.set place t⟩)

end Family

def onSeen {α : Type} (place : Nat) (answer : α → SharedAnswer solver)
    (call : ParaconsistentTheory solver → Logged (α × ParaconsistentTheory solver))
    (us : List (ParaconsistentTheory solver)) :
    Logged (SharedAnswer solver × List (ParaconsistentTheory solver)) :=
  match us[place]? with
  | none => pure (.nothing, us)
  | some u => do
    let (a, u) ← call u
    pure (answer a, us.set place u)

namespace SharedCall

def run : SharedCall → Family solver → Logged (SharedAnswer solver × Family solver)
  | .create, s =>
    let (t, m) := SharedTheory.create s.memory
    pure (.nothing, ⟨m, s.theories ++ [t]⟩)
  | .takeToken, s => pure (.nothing, { s with memory := s.memory.advance })
  | .clone i, s => pure (.nothing, { s with theories := s.theories ++ s.theories[i]?.toList })
  | .add i f, s => s.on i (fun _ => .nothing) fun t m => pure ((), t.add f m)
  | .setInconsistent i names, s =>
    s.on i (fun _ => .nothing) fun t m => pure ((), t.setInconsistent names m)
  | .satisfiable i f?, s => s.on i .truth fun t m => t.satisfiable f? m
  | .entails i f, s => s.on i .truth fun t m => t.entails f m
  | .compiledTheory i, s => s.on i .theory fun t m => t.compiledTheory m

def runSeen : SharedCall → List (ParaconsistentTheory solver) →
    Logged (SharedAnswer solver × List (ParaconsistentTheory solver))
  | .create, us => pure (.nothing, us ++ [{}])
  | .takeToken, us => pure (.nothing, us)
  | .clone i, us => pure (.nothing, us ++ us[i]?.toList)
  | .add i f, us => onSeen i (fun _ => .nothing) (fun u => pure ((), u.add f)) us
  | .setInconsistent i names, us =>
    onSeen i (fun _ => .nothing) (fun u => pure ((), u.setInconsistent names)) us
  | .satisfiable i f?, us => onSeen i .truth (fun u => u.satisfiable f?) us
  | .entails i f, us => onSeen i .truth (fun u => u.entails f) us
  | .compiledTheory i, us => onSeen i .theory (fun u => u.compile) us

/-! ## One call -/

/-- The theories of a family as they are without sharing. -/
structure Sees (s : Family solver) (us : List (ParaconsistentTheory solver)) : Prop where
  isSound : s.memory.IsSound
  livesIn : ∀ t ∈ s.theories, t.LivesIn s.memory
  seen : s.theories.map (SharedTheory.seen s.memory) = us

variable {s : Family solver} {us : List (ParaconsistentTheory solver)}

theorem Sees.getElem? (h : Sees s us) (i : Nat) :
    us[i]? = s.theories[i]?.map (SharedTheory.seen s.memory) := by
  rw [← h.seen, List.getElem?_map]

theorem Sees.map_seen_eq (h : Sees s us) {m : Memory solver} (hm : s.memory.Extends m) :
    s.theories.map (SharedTheory.seen m) = us := by
  rw [← h.seen]
  exact List.map_congr_left fun t ht => (h.livesIn t ht).seen_eq hm

theorem on_refines {α : Type} (h : Sees s us) (i : Nat) (answer : α → SharedAnswer solver)
    {call : SharedTheory → Memory solver → Logged (α × SharedTheory × Memory solver)}
    {callSeen : ParaconsistentTheory solver → Logged (α × ParaconsistentTheory solver)}
    (hcall : ∀ t, s.theories[i]? = some t → t.LivesIn s.memory →
      SharedTheory.Refines s.memory (call t s.memory) (callSeen (t.seen s.memory))) :
    Sees (s.on i answer call).value.2 (onSeen i answer callSeen us).value.2 ∧
      (s.on i answer call).value.1 = (onSeen i answer callSeen us).value.1 ∧
      (s.on i answer call).events = (onSeen i answer callSeen us).events := by
  rw [Family.on, onSeen, h.getElem? i]
  cases hi : s.theories[i]? with
  | none => exact ⟨h, rfl, rfl⟩
  | some t =>
    have ht := h.livesIn t (List.mem_of_getElem? hi)
    obtain ⟨hevents, hanswer, hseen, hlives, hsound, hkeeps⟩ := hcall t hi ht
    refine ⟨⟨hsound, ?_, ?_⟩, ?_, ?_⟩
    · intro t' ht'
      rcases List.mem_or_eq_of_mem_set ht' with hmem | rfl
      · exact (h.livesIn t' hmem).of_extends hkeeps
      · exact hlives
    · show (s.theories.set i (call t s.memory).value.2.1).map
        (SharedTheory.seen (call t s.memory).value.2.2) = us.set i _
      rw [List.map_set, h.map_seen_eq hkeeps, hseen]
    · exact congrArg answer hanswer
    · show (call t s.memory).events ++ [] = (callSeen (t.seen s.memory)).events ++ []
      rw [hevents]

/-- **One call does what it does on theories that do not share**, as long as tokens are new. -/
theorem run_refines (h : Sees s us) (c : SharedCall)
    (htaken : (c.run s).value.2.memory.taken ≤ UInt64.size) :
    Sees (c.run s).value.2 (c.runSeen us).value.2 ∧
      (c.run s).value.1 = (c.runSeen us).value.1 ∧ (c.run s).events = (c.runSeen us).events := by
  cases c with
  | create =>
    obtain ⟨-, -, hseen, hlives, hsound, hkeeps⟩ := SharedTheory.refines_create h.isSound htaken
    refine ⟨⟨hsound, ?_, ?_⟩, rfl, rfl⟩
    · exact List.forall_mem_append.2 ⟨fun t ht => (h.livesIn t ht).of_extends hkeeps,
        List.forall_mem_singleton.2 hlives⟩
    · show (s.theories ++ [(SharedTheory.create s.memory).1]).map
        (SharedTheory.seen s.memory.advance) = us ++ [({} : ParaconsistentTheory solver)]
      rw [List.map_append, h.map_seen_eq s.memory.extends_advance, List.map_singleton]
      exact congrArg (us ++ [·]) hseen
  | takeToken =>
    have hkeeps := s.memory.extends_advance
    exact ⟨⟨h.isSound.advance, fun t ht => (h.livesIn t ht).of_extends hkeeps,
      h.map_seen_eq hkeeps⟩, rfl, rfl⟩
  | clone i =>
    refine ⟨⟨h.isSound, ?_, ?_⟩, rfl, rfl⟩
    · refine List.forall_mem_append.2 ⟨h.livesIn, fun t ht => ?_⟩
      exact h.livesIn t (List.mem_of_getElem? (Option.mem_toList.1 ht))
    · show (s.theories ++ s.theories[i]?.toList).map (SharedTheory.seen s.memory) =
        us ++ us[i]?.toList
      rw [List.map_append, h.seen, h.getElem? i]
      cases s.theories[i]? <;> rfl
  | add i f =>
    refine on_refines h i _ fun t hi ht => SharedTheory.refines_add h.isSound ht ?_ f
    simp only [run, Family.on, hi] at htaken
    exact htaken
  | setInconsistent i names =>
    refine on_refines h i _ fun t hi ht =>
      SharedTheory.refines_setInconsistent h.isSound ht names fun hnames => ?_
    simp only [run, Family.on, hi, SharedTheory.setInconsistent, if_neg hnames] at htaken
    exact htaken
  | satisfiable i f? =>
    exact on_refines h i _ fun t _ ht => SharedTheory.refines_satisfiable h.isSound ht f?
  | entails i f =>
    exact on_refines h i _ fun t _ ht => SharedTheory.refines_entails h.isSound ht f
  | compiledTheory i =>
    exact on_refines h i _ fun t _ ht => SharedTheory.refines_compiledTheory h.isSound ht

theorem taken_le_on {α : Type} (i : Nat) (answer : α → SharedAnswer solver)
    {call : SharedTheory → Memory solver → Logged (α × SharedTheory × Memory solver)}
    (hcall : ∀ t, s.memory.taken ≤ (call t s.memory).value.2.2.taken) :
    s.memory.taken ≤ (s.on i answer call).value.2.memory.taken := by
  rw [Family.on]
  split
  · exact Nat.le_refl _
  · exact hcall _

theorem taken_le_run (s : Family solver) (c : SharedCall) :
    s.memory.taken ≤ (c.run s).value.2.memory.taken := by
  cases c with
  | create | takeToken => exact Nat.le_succ _
  | clone i => exact Nat.le_refl _
  | add i f => exact taken_le_on i _ fun t => Nat.le_succ _
  | setInconsistent i names =>
    exact taken_le_on i _ fun t => t.taken_le_setInconsistent names s.memory
  | satisfiable i f? | entails i f =>
    exact taken_le_on i _ fun t => Nat.le_of_eq (SharedTheory.taken_ask _ t _).symm
  | compiledTheory i =>
    exact taken_le_on i _ fun t => Nat.le_of_eq (SharedTheory.taken_compile t _).symm

end SharedCall

/-! ## The record -/

/-- What a theory was told: its formulas, and the inconsistent atoms as they were declared last. -/
structure Told where
  formulas : List Formula := []
  inconsistent : List String := []

namespace Told

def classical (solver : Solver) (r : Told) : ClassicalTheory solver :=
  .ofFormulas (r.formulas.map (·.pnnf r.inconsistent))

def ofTheory (u : ParaconsistentTheory solver) : Told := ⟨u.formulas, u.inconsistent⟩

def sorted (r : Told) : Told := { r with inconsistent := sortedNames r.inconsistent }

theorem classical_eq {r : Told} {u : ParaconsistentTheory solver} (h : ofTheory u = r.sorted) :
    u.classical = r.classical solver ∧
      Formula.pnnf u.inconsistent = Formula.pnnf r.inconsistent := by
  obtain ⟨fs, names⟩ := r
  obtain ⟨hformulas, hnames⟩ := mk.injEq _ _ _ _ ▸ h
  rw [ParaconsistentTheory.classical, hformulas, hnames, pnnf_sortedNames]
  exact ⟨rfl, rfl⟩

end Told

namespace SharedCall

def place? : SharedCall → Option Nat
  | .create | .takeToken => none
  | .clone i | .add i _ | .setInconsistent i _ | .satisfiable i _ | .entails i _
  | .compiledTheory i => some i

def record : SharedCall → List Told → List Told
  | .create, rs => rs ++ [{}]
  | .clone i, rs => rs ++ rs[i]?.toList
  | .add i f, rs => rs.modify i fun r => { r with formulas := r.formulas ++ [f] }
  | .setInconsistent i names, rs => rs.modify i fun r => { r with inconsistent := names }
  | .takeToken, rs | .satisfiable .., rs | .entails .., rs | .compiledTheory _, rs => rs

def freshAnswer (r : Told) : SharedCall → SharedAnswer solver
  | .satisfiable _ f? =>
    .truth ((r.classical solver).satisfiable (f?.map (·.pnnf r.inconsistent))).value
  | .entails _ f => .truth ((r.classical solver).entails (f.pnnf r.inconsistent)).value
  | .compiledTheory _ => .theory (r.classical solver)
  | _ => .nothing

/-- The right answer of a call: one where no theory is has none. -/
def rightAnswer (rs : List Told) (c : SharedCall) : SharedAnswer solver :=
  match c.place?.bind (rs[·]?) with
  | none => .nothing
  | some r => c.freshAnswer r

/-- Theories that do not share were told what is on record. -/
structure Follows (us : List (ParaconsistentTheory solver)) (rs : List Told) : Prop where
  isFresh : ∀ u ∈ us, u.IsFresh
  told : us.map Told.ofTheory = rs.map Told.sorted

variable {us : List (ParaconsistentTheory solver)} {rs : List Told}

theorem Follows.getElem? (h : Follows us rs) (i : Nat) :
    us[i]?.map Told.ofTheory = rs[i]?.map Told.sorted := by
  rw [← List.getElem?_map, h.told, List.getElem?_map]

/-- A call that keeps theories fresh, changes what they were told in one way and answers rightly. -/
theorem onSeen_follows {α : Type} (h : Follows us rs) {c : SharedCall} {i : Nat}
    (hc : c.place? = some i) (answer : α → SharedAnswer solver)
    {call : ParaconsistentTheory solver → Logged (α × ParaconsistentTheory solver)}
    {change : Told → Told}
    (hcall : ∀ u r, u.IsFresh → Told.ofTheory u = r.sorted → (call u).value.2.IsFresh ∧
      Told.ofTheory (call u).value.2 = (change r).sorted ∧
        answer (call u).value.1 = c.freshAnswer r) :
    Follows (onSeen i answer call us).value.2 (rs.modify i change) ∧
      (onSeen i answer call us).value.1 = c.rightAnswer rs := by
  have hi := h.getElem? i
  rw [onSeen, rightAnswer, hc, Option.bind_some]
  cases hu : us[i]? with
  | none =>
    have hr : rs[i]? = none := by
      rw [hu] at hi
      exact Option.map_eq_none_iff.1 hi.symm
    rw [List.modify_eq_self (List.getElem?_eq_none_iff.1 hr), hr]
    exact ⟨h, rfl⟩
  | some u =>
    rw [hu, Option.map_some] at hi
    obtain ⟨r, hr, htold⟩ := Option.map_eq_some_iff.1 hi.symm
    obtain ⟨hfresh, hchange, hanswer⟩ :=
      hcall u r (h.isFresh u (List.mem_of_getElem? hu)) htold.symm
    rw [hr]
    refine ⟨⟨?_, ?_⟩, hanswer⟩
    · intro u' hu'
      rcases List.mem_or_eq_of_mem_set hu' with hmem | rfl
      · exact h.isFresh u' hmem
      · exact hfresh
    · show (us.set i (call u).value.2).map Told.ofTheory = (rs.modify i change).map Told.sorted
      rw [List.map_set, hchange, h.told, ← List.map_set, List.modify_eq_set_getElem?, hr]
      rfl

theorem Follows.append (h : Follows us rs) {us' : List (ParaconsistentTheory solver)}
    {rs' : List Told} (h' : Follows us' rs') : Follows (us ++ us') (rs ++ rs') where
  isFresh := List.forall_mem_append.2 ⟨h.isFresh, h'.isFresh⟩
  told := by rw [List.map_append, List.map_append, h.told, h'.told]

theorem onSeen_follows_of_compiled {α : Type} (h : Follows us rs) {c : SharedCall} {i : Nat}
    (hc : c.place? = some i) (answer : α → SharedAnswer solver)
    {call : ParaconsistentTheory solver → Logged (α × ParaconsistentTheory solver)}
    (hcall : ∀ u r, u.IsFresh → Told.ofTheory u = r.sorted → (call u).value.2 = u.compiled ∧
      answer (call u).value.1 = c.freshAnswer r) :
    Follows (onSeen i answer call us).value.2 rs ∧
      (onSeen i answer call us).value.1 = c.rightAnswer rs := by
  have hon : Follows (onSeen i answer call us).value.2 (rs.modify i id) ∧
      (onSeen i answer call us).value.1 = c.rightAnswer rs := by
    refine onSeen_follows h hc answer fun u r hfresh htold => ?_
    obtain ⟨hcompiled, hanswer⟩ := hcall u r hfresh htold
    rw [hcompiled]
    exact ⟨u.isFresh_compiled, htold, hanswer⟩
  rwa [List.modify_id] at hon

/-- **One call answers as classical theories made on the spot do**, and keeps the record. -/
theorem runSeen_follows (h : Follows us rs) (c : SharedCall) :
    Follows (c.runSeen us).value.2 (c.record rs) ∧ (c.runSeen us).value.1 = c.rightAnswer rs := by
  cases c with
  | create =>
    refine ⟨h.append ⟨?_, ?_⟩, rfl⟩
    · exact List.forall_mem_singleton.2 (ParaconsistentTheory.isFresh_of_none rfl)
    · show [Told.ofTheory ({} : ParaconsistentTheory solver)] = [Told.sorted {}]
      rw [Told.sorted, sortedNames_nil]
      rfl
  | takeToken => exact ⟨h, rfl⟩
  | clone i =>
    refine ⟨h.append ⟨fun u hu => ?_, ?_⟩, ?_⟩
    · exact h.isFresh u (List.mem_of_getElem? (Option.mem_toList.1 hu))
    · rw [← Option.toList_map, h.getElem? i, Option.toList_map]
    · rw [rightAnswer]
      cases (SharedCall.clone i).place?.bind (rs[·]?) <;> rfl
  | add i f =>
    refine onSeen_follows h rfl _ fun u r _ htold =>
      ⟨ParaconsistentTheory.isFresh_of_none rfl, ?_, rfl⟩
    have hformulas : u.formulas = r.formulas := congrArg Told.formulas htold
    have hnames : u.inconsistent = sortedNames r.inconsistent := congrArg Told.inconsistent htold
    show (⟨u.formulas ++ [f], u.inconsistent⟩ : Told) = _
    rw [hformulas, hnames]
    rfl
  | setInconsistent i names =>
    refine onSeen_follows h rfl _ fun u r hfresh htold =>
      ⟨ParaconsistentTheory.isFresh_setInconsistent hfresh names, ?_, rfl⟩
    have hformulas : u.formulas = r.formulas := congrArg Told.formulas htold
    show Told.ofTheory (u.setInconsistent names) = _
    rw [Told.ofTheory, ParaconsistentTheory.formulas_setInconsistent,
      ParaconsistentTheory.inconsistent_setInconsistent, hformulas]
    rfl
  | satisfiable i f? =>
    refine onSeen_follows_of_compiled h rfl _ fun u r hfresh htold => ?_
    obtain ⟨hclassical, hpnnf⟩ := Told.classical_eq htold
    rw [ParaconsistentTheory.value_satisfiable hfresh, hclassical, hpnnf]
    exact ⟨rfl, rfl⟩
  | entails i f =>
    refine onSeen_follows_of_compiled h rfl _ fun u r hfresh htold => ?_
    obtain ⟨hclassical, hpnnf⟩ := Told.classical_eq htold
    rw [ParaconsistentTheory.value_entails hfresh, hclassical, hpnnf]
    exact ⟨rfl, rfl⟩
  | compiledTheory i =>
    refine onSeen_follows_of_compiled h rfl _ fun u r hfresh htold => ?_
    rw [ParaconsistentTheory.value_compile hfresh, (Told.classical_eq htold).1]
    exact ⟨rfl, rfl⟩

end SharedCall

end DefaultLogic
