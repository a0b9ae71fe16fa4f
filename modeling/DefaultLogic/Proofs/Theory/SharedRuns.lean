import DefaultLogic.Proofs.Theory.SharedCalls
import Mathlib.Computability.Primrec.List
import Mathlib.Data.List.Permutation

/-!
# Runs of calls on theories that share

A theory is ready once it has compiled, and stays so until it is changed.

* `IsReady.not_compiles`: a theory that is ready does not compile.
* `compiles_run_iff`, `run_eq_of_cell?`: **a call compiles exactly if it fills a cell, and a
  question to a theory that has one changes nothing.**
* `runCalls_refines`: a run does what it does on theories that do not share.
* `runCalls_fresh`: **in every run of calls, every answer is that of a classical theory made on the
  spot from what the theory was told, and no theory is compiled twice unless it was told something
  new in between.**
-/

namespace DefaultLogic

open DefaultLogic.Sat

variable {solver : Solver} {us : List (ParaconsistentTheory solver)} {rs : List Told}

namespace ParaconsistentTheory

variable {u : ParaconsistentTheory solver}

/-! ## Compiling -/

theorem isSome_compiled?_satisfiable (h : u.IsFresh) (f? : Option Formula) :
    (u.satisfiable f?).value.2.compiled?.isSome = true := by
  rw [value_satisfiable h]
  rfl

theorem isSome_compiled?_entails (h : u.IsFresh) (f : Formula) :
    (u.entails f).value.2.compiled?.isSome = true := by
  rw [value_entails h]
  rfl

theorem isSome_compiled?_compile (h : u.IsFresh) :
    u.compile.value.2.compiled?.isSome = true := by
  rw [value_compile h]
  rfl

end ParaconsistentTheory

namespace SharedCall

/-- Whether a call may make its theory compile again: it adds a formula, or declares other atoms. -/
def Changes (i : Nat) (rs : List Told) : SharedCall → Prop
  | .add j _ => j = i
  | .setInconsistent j names =>
    j = i ∧ ∃ r, rs[i]? = some r ∧ ¬∀ a, a ∈ names ↔ a ∈ r.inconsistent
  | _ => False

def IsReady (us : List (ParaconsistentTheory solver)) (i : Nat) : Prop :=
  ∃ u, us[i]? = some u ∧ u.compiled?.isSome = true

def Compiles (events : List Event) : Prop := ∃ count names, .compiling count names ∈ events

theorem IsReady.append {i : Nat} (h : IsReady us i) (us' : List (ParaconsistentTheory solver)) :
    IsReady (us ++ us') i := by
  obtain ⟨u, hu, hcompiled⟩ := h
  exact ⟨u, by rw [List.getElem?_append_left (List.getElem?_eq_some_iff.1 hu).1, hu], hcompiled⟩

theorem IsReady.onSeen {α : Type} {i : Nat} (h : IsReady us i) (j : Nat)
    (answer : α → SharedAnswer solver)
    {call : ParaconsistentTheory solver → Logged (α × ParaconsistentTheory solver)}
    (hcall : j = i → ∀ u, us[i]? = some u → u.compiled?.isSome = true →
      (call u).value.2.compiled?.isSome = true) :
    IsReady (DefaultLogic.onSeen j answer call us).value.2 i := by
  obtain ⟨u, hu, hcompiled⟩ := h
  rw [DefaultLogic.onSeen]
  cases hj : us[j]? with
  | none => exact ⟨u, hu, hcompiled⟩
  | some u' =>
    show IsReady (us.set j (call u').value.2) i
    rw [IsReady, List.getElem?_set]
    by_cases hij : j = i
    · subst hij
      rw [hj] at hu
      obtain rfl := Option.some.inj hu
      rw [if_pos rfl, if_pos (List.getElem?_eq_some_iff.1 hj).1]
      exact ⟨_, rfl, hcall rfl u' hj hcompiled⟩
    · rw [if_neg hij]
      exact ⟨u, hu, hcompiled⟩

/-- **A theory stays ready unless it is changed.** -/
theorem IsReady.runSeen {i : Nat} (h : IsReady us i) (hus : Follows us rs) {c : SharedCall}
    (hc : ¬c.Changes i rs) : IsReady (c.runSeen us).value.2 i := by
  have hfresh : ∀ u, us[i]? = some u → u.IsFresh := fun u hu =>
    hus.isFresh u (List.mem_of_getElem? hu)
  cases c with
  | create => exact h.append _
  | takeToken => exact h
  | clone j => exact h.append _
  | add j f => exact h.onSeen j _ fun hj => absurd hj hc
  | setInconsistent j names =>
    refine h.onSeen j _ fun hj u hu hcompiled => ?_
    have hi := hus.getElem? i
    rw [hu, Option.map_some] at hi
    obtain ⟨r, hr, htold⟩ := Option.map_eq_some_iff.1 hi.symm
    have hsame : sortedNames names = sortedNames r.inconsistent :=
      sortedNames_eq_iff.2 (Classical.not_not.1 fun hnot => hc ⟨hj, r, hr, hnot⟩)
    have hnames : u.inconsistent = sortedNames r.inconsistent :=
      congrArg Told.inconsistent htold.symm
    show (u.setInconsistent names).compiled?.isSome = true
    rw [ParaconsistentTheory.setInconsistent, if_pos (hsame.trans hnames.symm)]
    exact hcompiled
  | satisfiable j f? =>
    exact h.onSeen j _ fun _ u hu _ =>
      ParaconsistentTheory.isSome_compiled?_satisfiable (hfresh u hu) f?
  | entails j f =>
    exact h.onSeen j _ fun _ u hu _ =>
      ParaconsistentTheory.isSome_compiled?_entails (hfresh u hu) f
  | compiledTheory j =>
    exact h.onSeen j _ fun _ u hu _ =>
      ParaconsistentTheory.isSome_compiled?_compile (hfresh u hu)

theorem exists_of_compiles {α : Type} {i : Nat} {answer : α → SharedAnswer solver}
    {call : ParaconsistentTheory solver → Logged (α × ParaconsistentTheory solver)}
    (h : Compiles (onSeen i answer call us).events) :
    ∃ u, us[i]? = some u ∧ Compiles (call u).events := by
  obtain ⟨count, names, hmem⟩ := h
  rw [onSeen] at hmem
  cases hu : us[i]? with
  | none =>
    rw [hu] at hmem
    cases hmem
  | some u =>
    rw [hu] at hmem
    refine ⟨u, rfl, count, names, ?_⟩
    rwa [Logged.events_bind, Logged.events_pure, List.append_nil] at hmem

theorem compiles_of_onSeen {α : Type} {i : Nat} {answer : α → SharedAnswer solver}
    {call : ParaconsistentTheory solver → Logged (α × ParaconsistentTheory solver)}
    {u : ParaconsistentTheory solver} (hu : us[i]? = some u)
    (h : Compiles (onSeen i answer call us).events) : Compiles (call u).events := by
  obtain ⟨u', hu', h⟩ := exists_of_compiles h
  rw [hu] at hu'
  rwa [Option.some.inj hu']

theorem isReady_onSeen {α : Type} {i : Nat} (answer : α → SharedAnswer solver)
    {call : ParaconsistentTheory solver → Logged (α × ParaconsistentTheory solver)}
    {u : ParaconsistentTheory solver} (hu : us[i]? = some u)
    (h : (call u).value.2.compiled?.isSome = true) :
    IsReady (onSeen i answer call us).value.2 i := by
  refine ⟨(call u).value.2, ?_, h⟩
  rw [onSeen, hu]
  exact List.getElem?_set_self (List.getElem?_eq_some_iff.1 hu).1

/-- **A theory that compiles is ready from then on.** -/
theorem isReady_of_compiles (hus : Follows us rs) {c : SharedCall} {i : Nat}
    (hc : c.place? = some i) (h : Compiles (c.runSeen us).events) :
    IsReady (c.runSeen us).value.2 i := by
  have hfresh : ∀ u, us[i]? = some u → u.IsFresh := fun u hu =>
    hus.isFresh u (List.mem_of_getElem? hu)
  cases c with
  | create | takeToken => cases hc
  | clone j =>
    obtain ⟨_, _, hmem⟩ := h
    cases hmem
  | add j f | setInconsistent j names =>
    obtain ⟨_, -, _, _, hmem⟩ := exists_of_compiles h
    cases hmem
  | satisfiable j f? =>
    obtain rfl := Option.some.inj hc
    obtain ⟨u, hu, -⟩ := exists_of_compiles h
    exact isReady_onSeen _ hu (ParaconsistentTheory.isSome_compiled?_satisfiable (hfresh u hu) f?)
  | entails j f =>
    obtain rfl := Option.some.inj hc
    obtain ⟨u, hu, -⟩ := exists_of_compiles h
    exact isReady_onSeen _ hu (ParaconsistentTheory.isSome_compiled?_entails (hfresh u hu) f)
  | compiledTheory j =>
    obtain rfl := Option.some.inj hc
    obtain ⟨u, hu, -⟩ := exists_of_compiles h
    exact isReady_onSeen _ hu (ParaconsistentTheory.isSome_compiled?_compile (hfresh u hu))

theorem not_compiles_satisfiable (c : ClassicalTheory solver) (f? : Option Formula) :
    ¬Compiles (GroundLogic.satisfiable f? c).events := by
  rintro ⟨count, names, hmem⟩
  replace hmem : Event.compiling count names ∈ (c.satisfiable f?).events ++ [] := hmem
  rw [List.append_nil, ClassicalTheory.satisfiable] at hmem
  split at hmem
  · cases hmem
  · cases hmem
  · cases List.mem_singleton.1 hmem

theorem not_compiles_entails (c : ClassicalTheory solver) (f : Formula) :
    ¬Compiles (GroundLogic.entails f c).events := by
  have hevents : (GroundLogic.entails f c).events =
      ((c.satisfiable (some (.not f))).events ++ []) ++ [] := rfl
  rw [hevents, List.append_nil]
  exact not_compiles_satisfiable c (some (.not f))

/-- **A theory that is ready does not compile.** -/
theorem IsReady.not_compiles {i : Nat} (h : IsReady us i) {c : SharedCall}
    (hc : c.place? = some i) : ¬Compiles (c.runSeen us).events := by
  obtain ⟨u, hu, hready⟩ := h
  obtain ⟨kept, hkept⟩ := Option.isSome_iff_exists.1 hready
  have hcompile : u.compile = pure (kept, u) := by
    rw [ParaconsistentTheory.compile, hkept]
  intro hcompiles
  cases c with
  | create | takeToken => cases hc
  | clone j =>
    obtain ⟨_, _, hmem⟩ := hcompiles
    cases hmem
  | add j f | setInconsistent j names =>
    obtain ⟨_, -, _, _, hmem⟩ := exists_of_compiles hcompiles
    cases hmem
  | satisfiable j f? =>
    obtain rfl := Option.some.inj hc
    replace hcompiles := compiles_of_onSeen hu hcompiles
    refine not_compiles_satisfiable kept (f?.map (·.pnnf u.inconsistent)) ?_
    rw [ParaconsistentTheory.satisfiable, hcompile, pure_bind, Logged.events_bind,
      Logged.events_pure, List.append_nil] at hcompiles
    exact hcompiles
  | entails j f =>
    obtain rfl := Option.some.inj hc
    replace hcompiles := compiles_of_onSeen hu hcompiles
    refine not_compiles_entails kept (f.pnnf u.inconsistent) ?_
    rw [ParaconsistentTheory.entails, hcompile, pure_bind, Logged.events_bind,
      Logged.events_pure, List.append_nil] at hcompiles
    exact hcompiles
  | compiledTheory j =>
    obtain rfl := Option.some.inj hc
    replace hcompiles := compiles_of_onSeen hu hcompiles
    rw [hcompile] at hcompiles
    obtain ⟨_, _, hmem⟩ := hcompiles
    cases hmem

end SharedCall

/-! ## Cells -/

namespace SharedCall

/-- A call that asks a theory, which compiles it if need be. -/
def IsQuestion : SharedCall → Prop
  | .satisfiable .. | .entails .. | .compiledTheory _ => True
  | .create | .takeToken | .clone _ | .add .. | .setInconsistent .. => False

theorem not_compiles_nil : ¬Compiles [] := fun ⟨_, _, hmem⟩ => nomatch hmem

theorem compiles_append {events events' : List Event} (h : ¬Compiles events') :
    Compiles (events ++ events') ↔ Compiles events := by
  constructor
  · rintro ⟨count, names, hmem⟩
    rcases List.mem_append.1 hmem with hmem | hmem
    · exact ⟨count, names, hmem⟩
    · exact absurd ⟨count, names, hmem⟩ h
  · rintro ⟨count, names, hmem⟩
    exact ⟨count, names, List.mem_append_left _ hmem⟩

end SharedCall

namespace SharedTheory

open SharedCall

variable {m : Memory solver} {t : SharedTheory}
  {question : ClassicalTheory solver → Logged (Bool × ClassicalTheory solver)}

theorem compiles_compile_iff (t : SharedTheory) (m : Memory solver) :
    Compiles (t.compile m).events ↔ m.cells.length < (t.compile m).value.2.2.cells.length := by
  rw [compile]
  cases t.cell? m with
  | some found => exact iff_of_false not_compiles_nil (Nat.lt_irrefl _)
  | none =>
    refine iff_of_true ⟨_, _, List.mem_cons_self⟩ ?_
    show m.cells.length < (m.cells ++ [_]).length
    rw [List.length_append]
    exact Nat.lt_succ_self _

theorem compiles_compiledTheory_iff (t : SharedTheory) (m : Memory solver) :
    Compiles (t.compiledTheory m).events ↔
      m.cells.length < (t.compiledTheory m).value.2.2.cells.length := by
  rw [compiledTheory, Logged.events_bind]
  exact (compiles_append not_compiles_nil).trans (t.compiles_compile_iff m)

theorem compiles_ask_iff (hquestion : ∀ c, ¬Compiles (question c).events) (t : SharedTheory)
    (m : Memory solver) :
    Compiles (t.ask question m).events ↔
      m.cells.length < (t.ask question m).value.2.2.cells.length := by
  have hlength : (t.ask question m).value.2.2.cells.length =
      (t.compile m).value.2.2.cells.length := List.length_modify ..
  rw [hlength, ← t.compiles_compile_iff m, ask, Logged.events_bind]
  refine compiles_append ?_
  rw [Logged.events_bind, Logged.events_pure, List.append_nil]
  exact hquestion _

/-- **A question to a theory that has a cell changes neither the theory nor the memory.** -/
theorem snd_value_ask_of_cell? (ht : t.LivesIn m) (hcell : (t.cell? m).isSome = true)
    (hquestion : (question (t.seen m).classical).value.2 = (t.seen m).classical) :
    (t.ask question m).value.2 = (t, m) := by
  obtain ⟨⟨address, c⟩, hfound⟩ := Option.isSome_iff_exists.1 hcell
  have hkept : (t.seen m).compiled? = some c := by
    rw [seen, hfound]
    rfl
  obtain rfl : c = (t.seen m).classical := ht.isFresh c hkept
  have hget := (cell?_eq_some_iff.1 hfound).2
  rw [ask, compile, hfound, Logged.value_bind, Logged.value_bind]
  show (t, m.put address (question (t.seen m).classical).value.2) = (t, m)
  rw [hquestion, Memory.put_eq hget]

theorem snd_value_compiledTheory_of_cell? (hcell : (t.cell? m).isSome = true) :
    (t.compiledTheory m).value.2 = (t, m) := by
  obtain ⟨found, hfound⟩ := Option.isSome_iff_exists.1 hcell
  rw [compiledTheory, compile, hfound]
  rfl

end SharedTheory

namespace SharedCall

variable {s : Family solver}

theorem compiles_on_iff {α : Type} (i : Nat) (answer : α → SharedAnswer solver)
    {call : SharedTheory → Memory solver → Logged (α × SharedTheory × Memory solver)}
    (hcall : ∀ t, Compiles (call t s.memory).events ↔
      s.memory.cells.length < (call t s.memory).value.2.2.cells.length) :
    Compiles (s.on i answer call).events ↔
      s.memory.cells.length < (s.on i answer call).value.2.memory.cells.length := by
  rw [Family.on]
  cases s.theories[i]? with
  | none => exact iff_of_false not_compiles_nil (Nat.lt_irrefl _)
  | some t =>
    show Compiles ((call t s.memory).events ++ []) ↔ _
    rw [List.append_nil]
    exact hcall t

/-- **A call compiles exactly if it fills a cell.** -/
theorem compiles_run_iff (s : Family solver) (c : SharedCall) :
    Compiles (c.run s).events ↔
      s.memory.cells.length < (c.run s).value.2.memory.cells.length := by
  cases c with
  | create | takeToken | clone i => exact iff_of_false not_compiles_nil (Nat.lt_irrefl _)
  | add i f =>
    exact compiles_on_iff i _ fun t => iff_of_false not_compiles_nil (Nat.lt_irrefl _)
  | setInconsistent i names =>
    refine compiles_on_iff i _ fun t => iff_of_false not_compiles_nil ?_
    show ¬_ < (t.setInconsistent names s.memory).2.cells.length
    rw [SharedTheory.setInconsistent]
    split
    · exact Nat.lt_irrefl _
    · exact Nat.lt_irrefl _
  | satisfiable i f? =>
    exact compiles_on_iff i _ fun t =>
      SharedTheory.compiles_ask_iff (fun c => not_compiles_satisfiable c _) t s.memory
  | entails i f =>
    exact compiles_on_iff i _ fun t =>
      SharedTheory.compiles_ask_iff (fun c => not_compiles_entails c _) t s.memory
  | compiledTheory i => exact compiles_on_iff i _ fun t => t.compiles_compiledTheory_iff s.memory

theorem on_eq_of_call_eq {α : Type} {i : Nat} {t : SharedTheory} (ht : s.theories[i]? = some t)
    (answer : α → SharedAnswer solver)
    {call : SharedTheory → Memory solver → Logged (α × SharedTheory × Memory solver)}
    (hcall : (call t s.memory).value.2 = (t, s.memory)) : (s.on i answer call).value.2 = s := by
  have hset : s.theories.set i t = s.theories := by
    obtain ⟨hi, rfl⟩ := List.getElem?_eq_some_iff.1 ht
    exact List.set_getElem_self hi
  rw [Family.on, ht]
  show (⟨(call t s.memory).value.2.2, s.theories.set i (call t s.memory).value.2.1⟩ :
    Family solver) = s
  rw [hcall, hset]

/-- **A question to a theory that has a cell uses it**: no theory and no cell is changed, and none
is filled. -/
theorem run_eq_of_cell? {us : List (ParaconsistentTheory solver)} (h : Sees s us) {c : SharedCall}
    (hquestion : c.IsQuestion) {i : Nat} (hc : c.place? = some i) {t : SharedTheory}
    (ht : s.theories[i]? = some t) (hcell : (t.cell? s.memory).isSome = true) :
    (c.run s).value.2 = s := by
  have hlives := h.livesIn t (List.mem_of_getElem? ht)
  cases c with
  | create | takeToken | clone j | add j f | setInconsistent j names => exact hquestion.elim
  | satisfiable j f? =>
    obtain rfl := Option.some.inj hc
    exact on_eq_of_call_eq ht _ (SharedTheory.snd_value_ask_of_cell? hlives hcell
      (SharedTheory.snd_value_satisfiable _ _))
  | entails j f =>
    obtain rfl := Option.some.inj hc
    exact on_eq_of_call_eq ht _ (SharedTheory.snd_value_ask_of_cell? hlives hcell
      (SharedTheory.snd_value_entails _ _))
  | compiledTheory j =>
    obtain rfl := Option.some.inj hc
    exact on_eq_of_call_eq ht _ (SharedTheory.snd_value_compiledTheory_of_cell? hcell)

end SharedCall

/-! ## Runs -/

structure Outcome (solver : Solver) where
  answer : SharedAnswer solver
  events : List Event

def runCalls {S : Type} (run : SharedCall → S → Logged (SharedAnswer solver × S)) :
    List SharedCall → S → List (Outcome solver) × S
  | [], s => ([], s)
  | c :: cs, s =>
    let x := run c s
    let (outcomes, s) := runCalls run cs x.value.2
    (⟨x.value.1, x.events⟩ :: outcomes, s)

def recordCalls : List SharedCall → List Told → List Told
  | [], rs => rs
  | c :: cs, rs => recordCalls cs (c.record rs)

/-- The right answers of calls, each about the record as it was then. -/
def rightAnswers : List SharedCall → List Told → List (SharedAnswer solver)
  | [], _ => []
  | c :: cs, rs => c.rightAnswer rs :: rightAnswers cs (c.record rs)

/-- Whether the call at a position is on the theory at a place, and compiles it. -/
def CompilesAt (cs : List SharedCall) (outcomes : List (Outcome solver)) (i k : Nat) : Prop :=
  ∃ c o, cs[k]? = some c ∧ outcomes[k]? = some o ∧ c.place? = some i ∧
    SharedCall.Compiles o.events

def familyAt (solver : Solver) (taken : Nat) (cs : List SharedCall) (k : Nat) : Family solver :=
  (runCalls SharedCall.run (cs.take k) (Family.empty taken)).2

section

variable {S : Type} (run : SharedCall → S → Logged (SharedAnswer solver × S))

theorem snd_runCalls_append (cs cs' : List SharedCall) (s : S) :
    (runCalls run (cs ++ cs') s).2 = (runCalls run cs' (runCalls run cs s).2).2 := by
  induction cs generalizing s with
  | nil => rfl
  | cons c cs ih => exact ih (run c s).value.2

theorem getElem?_runCalls (cs : List SharedCall) (s : S) (k : Nat) :
    (runCalls run cs s).1[k]? = cs[k]?.map fun c =>
      let x := run c (runCalls run (cs.take k) s).2
      ⟨x.value.1, x.events⟩ := by
  induction cs generalizing s k with
  | nil => rfl
  | cons c cs ih =>
    cases k with
    | zero => rfl
    | succ k => exact ih (run c s).value.2 k

end

theorem familyAt_succ {taken : Nat} {cs : List SharedCall} {k : Nat} {c : SharedCall}
    (hc : cs[k]? = some c) :
    familyAt solver taken cs (k + 1) = (c.run (familyAt solver taken cs k)).value.2 := by
  rw [familyAt, List.take_add_one, hc, snd_runCalls_append]
  rfl

theorem taken_le_runCalls (cs : List SharedCall) (s : Family solver) :
    s.memory.taken ≤ (runCalls SharedCall.run cs s).2.memory.taken := by
  induction cs generalizing s with
  | nil => exact Nat.le_refl _
  | cons c cs ih => exact Nat.le_trans (SharedCall.taken_le_run s c) (ih _)

theorem runCalls_refines {s : Family solver} (h : SharedCall.Sees s us) (cs : List SharedCall)
    (htaken : (runCalls SharedCall.run cs s).2.memory.taken ≤ UInt64.size) :
    SharedCall.Sees (runCalls SharedCall.run cs s).2 (runCalls SharedCall.runSeen cs us).2 ∧
      (runCalls SharedCall.run cs s).1 = (runCalls SharedCall.runSeen cs us).1 := by
  induction cs generalizing s us with
  | nil => exact ⟨h, rfl⟩
  | cons c cs ih =>
    have hfirst := Nat.le_trans (taken_le_runCalls cs (c.run s).value.2) htaken
    obtain ⟨hsees, hanswer, hevents⟩ := SharedCall.run_refines h c hfirst
    obtain ⟨hlast, hrest⟩ := ih hsees htaken
    refine ⟨hlast, ?_⟩
    show Outcome.mk _ _ :: _ = Outcome.mk _ _ :: _
    rw [hanswer, hevents, hrest]

theorem runCalls_follows (h : SharedCall.Follows us rs) (cs : List SharedCall) :
    SharedCall.Follows (runCalls SharedCall.runSeen cs us).2 (recordCalls cs rs) ∧
      (runCalls SharedCall.runSeen cs us).1.map Outcome.answer = rightAnswers cs rs := by
  induction cs generalizing us rs with
  | nil => exact ⟨h, rfl⟩
  | cons c cs ih =>
    obtain ⟨hfollows, hanswer⟩ := SharedCall.runSeen_follows h c
    obtain ⟨hlast, hrest⟩ := ih hfollows
    exact ⟨hlast, congrArg₂ List.cons hanswer hrest⟩

theorem exists_changes_of_isReady (h : SharedCall.Follows us rs) {i : Nat}
    (hready : SharedCall.IsReady us i) {cs : List SharedCall} {k : Nat}
    (hk : CompilesAt cs (runCalls SharedCall.runSeen cs us).1 i k) :
    ∃ l c, l < k ∧ cs[l]? = some c ∧ c.Changes i (recordCalls (cs.take l) rs) := by
  induction cs generalizing us rs k with
  | nil =>
    obtain ⟨_, _, hc, -⟩ := hk
    cases hc
  | cons c cs ih =>
    cases k with
    | zero =>
      obtain ⟨_, _, hc, ho, hplace, hcompiles⟩ := hk
      obtain rfl := Option.some.inj hc
      obtain rfl := Option.some.inj ho
      exact absurd hcompiles (hready.not_compiles hplace)
    | succ k =>
      by_cases hchanges : c.Changes i rs
      · exact ⟨0, c, Nat.succ_pos k, rfl, hchanges⟩
      · obtain ⟨l, c', hl, hc', hchanges'⟩ :=
          ih (SharedCall.runSeen_follows h c).1 (hready.runSeen h hchanges) hk
        exact ⟨l + 1, c', Nat.succ_lt_succ hl, hc', hchanges'⟩

/-- Between two compilations of a theory it is changed. -/
theorem exists_changes_between (h : SharedCall.Follows us rs) {i : Nat} {cs : List SharedCall}
    {j k : Nat} (hjk : j < k) (hj : CompilesAt cs (runCalls SharedCall.runSeen cs us).1 i j)
    (hk : CompilesAt cs (runCalls SharedCall.runSeen cs us).1 i k) :
    ∃ l c, j < l ∧ l < k ∧ cs[l]? = some c ∧ c.Changes i (recordCalls (cs.take l) rs) := by
  induction cs generalizing us rs j k with
  | nil =>
    obtain ⟨_, _, hc, -⟩ := hk
    cases hc
  | cons c cs ih =>
    obtain ⟨k, rfl⟩ := Nat.exists_eq_succ_of_ne_zero (Nat.ne_zero_of_lt hjk)
    have hfollows := (SharedCall.runSeen_follows h c).1
    cases j with
    | zero =>
      obtain ⟨_, _, hc, ho, hplace, hcompiles⟩ := hj
      obtain rfl := Option.some.inj hc
      obtain rfl := Option.some.inj ho
      have hready := SharedCall.isReady_of_compiles h hplace hcompiles
      have hrest : CompilesAt cs (runCalls SharedCall.runSeen cs (c.runSeen us).value.2).1 i k := hk
      obtain ⟨l, c', hl, hc', hchanges⟩ := exists_changes_of_isReady hfollows hready hrest
      exact ⟨l + 1, c', Nat.succ_pos l, Nat.succ_lt_succ hl, hc', hchanges⟩
    | succ j =>
      obtain ⟨l, c', hjl, hlk, hc', hchanges⟩ := ih hfollows (Nat.lt_of_succ_lt_succ hjk) hj hk
      exact ⟨l + 1, c', Nat.succ_lt_succ hjl, Nat.succ_lt_succ hlk, hc', hchanges⟩

/-- A theory holds what it was told, its inconsistent atoms in order and each once, and these are
the atoms that its transformer renames. -/
structure SharedTheory.Holds (t : SharedTheory) (r : Told) : Prop where
  formulas : t.formulas = r.formulas
  inconsistent : ∀ a, a ∈ t.inconsistent ↔ a ∈ r.inconsistent
  sorted : t.inconsistent.Pairwise (· < ·)
  transformer : ∀ a, t.transformer.renames a = true ↔ a ∈ t.inconsistent

theorem SharedTheory.holds_of_ofTheory_seen {t : SharedTheory} {m : Memory solver} {r : Told}
    (ht : t.LivesIn m) (h : Told.ofTheory (t.seen m) = r.sorted) : t.Holds r := by
  have hnames : t.inconsistent = sortedNames r.inconsistent := congrArg Told.inconsistent h
  refine ⟨congrArg Told.formulas h, fun a => ?_, ?_, fun a => ?_⟩
  · rw [hnames, mem_sortedNames]
  · rw [hnames]
    exact pairwise_sortedNames _
  · rw [ht.transformer]
    exact List.contains_iff_mem

/-- **A theory compiles exactly where it fills a cell.** -/
theorem compilesAt_iff (taken : Nat) (cs : List SharedCall) (i k : Nat) :
    CompilesAt cs (runCalls SharedCall.run cs (Family.empty taken : Family solver)).1 i k ↔
      ∃ c, cs[k]? = some c ∧ c.place? = some i ∧
        (familyAt solver taken cs k).memory.cells.length <
          (familyAt solver taken cs (k + 1)).memory.cells.length := by
  refine exists_congr fun c => ?_
  rw [getElem?_runCalls]
  constructor
  · rintro ⟨o, hc, ho, hplace, hcompiles⟩
    rw [hc] at ho
    obtain rfl := Option.some.inj ho
    refine ⟨hc, hplace, ?_⟩
    rw [familyAt_succ hc]
    exact (SharedCall.compiles_run_iff _ c).1 hcompiles
  · rintro ⟨hc, hplace, hfills⟩
    rw [familyAt_succ hc] at hfills
    rw [hc]
    exact ⟨_, rfl, rfl, hplace, (SharedCall.compiles_run_iff _ c).2 hfills⟩

theorem taken_familyAt_le (taken : Nat) (cs : List SharedCall) (k : Nat) :
    (familyAt solver taken cs k).memory.taken ≤
      (runCalls SharedCall.run cs (Family.empty taken : Family solver)).2.memory.taken := by
  conv_rhs => rw [← List.take_append_drop k cs, snd_runCalls_append]
  exact taken_le_runCalls _ _

/-- **In every run of calls, on any mixture of theories and their copies, every answer is that of a
classical theory made on the spot**: it gets the normal forms of the formulas that the theory was
told, in order and under the inconsistent atoms that were declared last, and the normal form of the
query.  Every theory holds what it was told, and between two compilations of a theory a formula was
added to it or other inconsistent atoms were declared.  A theory compiles exactly where it fills a
cell, and a question to a theory that has one changes nothing. -/
theorem runCalls_fresh (taken : Nat) (cs : List SharedCall)
    (htaken : (runCalls SharedCall.run cs (Family.empty taken : Family solver)).2.memory.taken ≤
      UInt64.size) :
    let outcomes := (runCalls SharedCall.run cs (Family.empty taken : Family solver)).1
    let theories := (runCalls SharedCall.run cs (Family.empty taken : Family solver)).2.theories
    outcomes.map Outcome.answer = rightAnswers cs [] ∧
      (∀ (i : Nat) (t : SharedTheory), theories[i]? = some t →
        ∃ r, (recordCalls cs [])[i]? = some r ∧ t.Holds r) ∧
      (∀ i j k, j < k → CompilesAt cs outcomes i j → CompilesAt cs outcomes i k →
        ∃ l c, j < l ∧ l < k ∧ cs[l]? = some c ∧ c.Changes i (recordCalls (cs.take l) [])) ∧
      (∀ i k, CompilesAt cs outcomes i k ↔ ∃ c, cs[k]? = some c ∧ c.place? = some i ∧
        (familyAt solver taken cs k).memory.cells.length <
          (familyAt solver taken cs (k + 1)).memory.cells.length) ∧
      ∀ (k i : Nat) (c : SharedCall) (t : SharedTheory), cs[k]? = some c → c.IsQuestion →
        c.place? = some i → (familyAt solver taken cs k).theories[i]? = some t →
          (t.cell? (familyAt solver taken cs k).memory).isSome = true →
            familyAt solver taken cs (k + 1) = familyAt solver taken cs k := by
  have hempty : SharedCall.Sees (Family.empty taken : Family solver) [] :=
    ⟨fun _ h => absurd h List.not_mem_nil, fun _ h => absurd h List.not_mem_nil, rfl⟩
  have hnone : SharedCall.Follows ([] : List (ParaconsistentTheory solver)) [] :=
    ⟨fun _ h => absurd h List.not_mem_nil, rfl⟩
  obtain ⟨hsees, houtcomes⟩ := runCalls_refines hempty cs htaken
  obtain ⟨hfollows, hanswers⟩ := runCalls_follows hnone cs
  refine ⟨?_, fun i t ht => ?_, ?_, compilesAt_iff taken cs, ?_⟩
  · rw [houtcomes]
    exact hanswers
  · have hi := hfollows.getElem? i
    rw [hsees.getElem? i, ht, Option.map_some, Option.map_some] at hi
    obtain ⟨r, hr, htold⟩ := Option.map_eq_some_iff.1 hi.symm
    have hlives := hsees.livesIn t (List.mem_of_getElem? ht)
    exact ⟨r, hr, SharedTheory.holds_of_ofTheory_seen hlives htold.symm⟩
  · rw [houtcomes]
    exact fun i j k => exists_changes_between hnone
  · intro k i c t hc hquestion hplace ht hcell
    have hbefore := (runCalls_refines hempty (cs.take k)
      (Nat.le_trans (taken_familyAt_le taken cs k) htaken)).1
    rw [familyAt_succ hc]
    exact SharedCall.run_eq_of_cell? hbefore hquestion hplace ht hcell

/-- A theory compiles once more when other atoms are declared, and a copy shares what its original
compiled until it is told something new. -/
theorem runCalls_fresh_cloned :
    let calls : List SharedCall := [.create, .add 0 (.atom "a"), .add 0 (.not (.atom "a")),
      .satisfiable 0 none, .setInconsistent 0 ["a"], .satisfiable 0 none, .clone 0,
      .entails 1 (.atom "b"), .add 1 (.atom "b"), .entails 1 (.atom "b"), .entails 0 (.atom "b")]
    let answers : List (SharedAnswer solve) := [.nothing, .nothing, .nothing, .truth false,
      .nothing, .truth true, .nothing, .truth false, .nothing, .truth true, .truth false]
    let run := runCalls SharedCall.run calls (Family.empty 0 : Family solve)
    run.2.memory.taken ≤ UInt64.size ∧ run.1.map Outcome.answer = answers ∧
      rightAnswers calls [] = answers ∧
      (CompilesAt calls run.1 0 3 ∧ CompilesAt calls run.1 0 5) ∧
      (∃ l c, 3 < l ∧ l < 5 ∧ calls[l]? = some c ∧
        c.Changes 0 (recordCalls (calls.take l) [])) ∧
      familyAt solve 0 calls 8 = familyAt solve 0 calls 7 ∧
      (familyAt solve 0 calls 7).memory.cells.length = 2 ∧ run.2.memory.cells.length = 3 := by
  intro calls answers run
  have htaken : run.2.memory.taken ≤ UInt64.size := by
    have hfive : run.2.memory.taken = 5 := by
      cbv
    rw [hfive]
    decide
  have hrun : run.1.map Outcome.answer = answers := by
    cbv
  obtain ⟨hright, -, hbetween, hfills, huses⟩ := runCalls_fresh 0 calls htaken
  have hfirst : CompilesAt calls run.1 0 3 := by
    refine (hfills 0 3).2 ⟨_, rfl, rfl, ?_⟩
    cbv
  have hsecond : CompilesAt calls run.1 0 5 := by
    refine (hfills 0 5).2 ⟨_, rfl, rfl, ?_⟩
    cbv
  have hcell : ((familyAt solve 0 calls 7).theories[1]?.bind fun t =>
      t.cell? (familyAt solve 0 calls 7).memory).isSome = true := by
    cbv
  obtain ⟨t, ht⟩ := Option.isSome_iff_exists.1 (Option.isSome_of_isSome_bind hcell)
  rw [ht, Option.bind_some] at hcell
  have hlengths : (familyAt solve 0 calls 7).memory.cells.length = 2 ∧
      run.2.memory.cells.length = 3 := by
    constructor <;> cbv
  exact ⟨htaken, hrun, hright.symm.trans hrun, ⟨hfirst, hsecond⟩,
    hbetween 0 3 5 (by decide) hfirst hsecond,
    huses 7 1 (.entails 1 (.atom "b")) t rfl trivial rfl ht hcell, hlengths⟩

end DefaultLogic
