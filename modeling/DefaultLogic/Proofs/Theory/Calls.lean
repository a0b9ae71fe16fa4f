import DefaultLogic.Proofs.Theory.Classical
import Mathlib.Computability.Primrec.List
import Mathlib.Data.List.Permutation

/-!
# Runs of calls on classical theories

Theories stand in a list.  A call makes a new theory or a copy of one, adds a formula to one, or
asks one of them a question.  Beside the theories runs the record of the formulas that were added
to each, copies having what their original had when they were made.

* `Call.run_isRight`: one call keeps every theory compiled and changes the formulas as it changes
  the record, and its answer is right about the record.
* `runAll_isRight`: **in every run of calls, every answer is right about the formulas that were
  added to the theory that gave it.**
-/

namespace DefaultLogic

open DefaultLogic.Sat

/-- A call, on the theory at a place where there is one. -/
inductive Call where
  | create
  | clone (place : Nat)
  | add (place : Nat) (f : Formula)
  | satisfiable (place : Nat) (f? : Option Formula)
  | entails (place : Nat) (f : Formula)
  | model (place : Nat)

inductive Answer where
  | nothing
  | truth (b : Bool)
  | model (m? : Option (List (String × Bool)))
  deriving DecidableEq

namespace Call

variable {solver : Solver}

/-- Calls the theory at a place, which then stands there as the call leaves it. -/
def on (place : Nat) (call : ClassicalTheory solver → Logged (Answer × ClassicalTheory solver))
    (ts : List (ClassicalTheory solver)) : Logged (Answer × List (ClassicalTheory solver)) :=
  match ts[place]? with
  | none => pure (.nothing, ts)
  | some t => do
    let (answer, t) ← call t
    pure (answer, ts.set place t)

def run : Call → List (ClassicalTheory solver) → Logged (Answer × List (ClassicalTheory solver))
  | .create, ts => pure (.nothing, ts ++ [{}])
  | .clone i, ts => pure (.nothing, ts ++ ts[i]?.toList)
  | .add i f, ts => on i (fun t => pure (.nothing, t.add f)) ts
  | .satisfiable i f?, ts => on i (fun t => do
      let (b, t) ← GroundLogic.satisfiable f? t
      pure (.truth b, t)) ts
  | .entails i f, ts => on i (fun t => do
      let (b, t) ← GroundLogic.entails f t
      pure (.truth b, t)) ts
  | .model i, ts => on i (fun t => pure (.model t.model, t)) ts

def record : Call → List (List Formula) → List (List Formula)
  | .create, fss => fss ++ [[]]
  | .clone i, fss => fss ++ fss[i]?.toList
  | .add i f, fss => fss.modify i (· ++ [f])
  | .satisfiable .., fss | .entails .., fss | .model _, fss => fss

def IsRightAbout (fs : List Formula) : Call → Answer → Prop
  | .satisfiable _ f?, answer =>
    ∃ b, answer = .truth b ∧ (b = true ↔ ∃ v, Satisfies v (fs ++ f?.toList))
  | .entails _ f, answer =>
    ∃ b, answer = .truth b ∧ (b = true ↔ ∀ v, Satisfies v fs → f.eval v = true)
  | .model _, .model none => ¬∃ v, Satisfies v fs
  | .model _, .model (some m) =>
    (∃ v, Satisfies v fs) ∧ ∀ v, (∀ p ∈ m, v p.1 = p.2) → Satisfies v fs
  | .model _, _ => False
  | _, answer => answer = .nothing

def place? : Call → Option Nat
  | .create => none
  | .clone i | .add i _ | .satisfiable i _ | .entails i _ | .model i => some i

/-- Whether the answer of a call is right about the record: a call where no theory is has none. -/
def IsRight (c : Call) (fss : List (List Formula)) (answer : Answer) : Prop :=
  match c.place?.bind (fss[·]?) with
  | none => answer = .nothing
  | some fs => c.IsRightAbout fs answer

/-! ## One call -/

/-- The theories are compiled from the formulas on record. -/
structure Keeps (ts : List (ClassicalTheory solver)) (fss : List (List Formula)) : Prop where
  isCompiled : ∀ t ∈ ts, t.IsCompiled
  formulas : ts.map ClassicalTheory.formulas = fss

variable {ts : List (ClassicalTheory solver)} {fss : List (List Formula)}

theorem Keeps.getElem? (h : Keeps ts fss) (i : Nat) :
    fss[i]? = ts[i]?.map ClassicalTheory.formulas := by
  rw [← h.formulas, List.getElem?_map]

/-- A call that keeps every theory compiled, changes its formulas in one way and is right about them
does so with the theory at a place and the formulas on record. -/
theorem on_isRight (h : Keeps ts fss) {c : Call} {i : Nat} (hc : c.place? = some i)
    {call : ClassicalTheory solver → Logged (Answer × ClassicalTheory solver)}
    {change : List Formula → List Formula}
    (hcall : ∀ t : ClassicalTheory solver, t.IsCompiled → (call t).value.2.IsCompiled ∧
      (call t).value.2.formulas = change t.formulas ∧ c.IsRightAbout t.formulas (call t).value.1) :
    Keeps (on i call ts).value.2 (fss.modify i change) ∧ c.IsRight fss (on i call ts).value.1 := by
  rw [on, IsRight, hc, Option.bind_some, h.getElem? i]
  cases hi : ts[i]? with
  | none =>
    have hnone : fss.length ≤ i := by
      rw [← List.getElem?_eq_none_iff, h.getElem? i, hi]
      rfl
    rw [List.modify_eq_self hnone]
    exact ⟨h, rfl⟩
  | some t =>
    obtain ⟨hcompiled, hformulas, hright⟩ := hcall t (h.isCompiled t (List.mem_of_getElem? hi))
    refine ⟨⟨?_, ?_⟩, hright⟩
    · intro t' ht'
      rcases List.mem_or_eq_of_mem_set ht' with hmem | rfl
      · exact h.isCompiled t' hmem
      · exact hcompiled
    · show (ts.set i (call t).value.2).map ClassicalTheory.formulas = fss.modify i change
      rw [← h.formulas, List.map_set, hformulas]
      refine List.ext_getElem? fun j => ?_
      rw [List.getElem?_set, List.getElem?_modify, List.length_map, List.getElem?_map]
      by_cases hij : i = j
      · subst hij
        rw [hi, if_pos rfl, if_pos (List.getElem?_eq_some_iff.1 hi).1]
        simp
      · simp [hij]

theorem on_isRight_of_eq (h : Keeps ts fss) {c : Call} {i : Nat} (hc : c.place? = some i)
    {call : ClassicalTheory solver → Logged (Answer × ClassicalTheory solver)}
    (hcall : ∀ t : ClassicalTheory solver, t.IsCompiled →
      (call t).value.2 = t ∧ c.IsRightAbout t.formulas (call t).value.1) :
    Keeps (on i call ts).value.2 fss ∧ c.IsRight fss (on i call ts).value.1 := by
  have hon : Keeps (on i call ts).value.2 (fss.modify i id) ∧
      c.IsRight fss (on i call ts).value.1 := by
    apply on_isRight h hc
    intro t ht
    obtain ⟨hsame, hright⟩ := hcall t ht
    rw [hsame]
    exact ⟨ht, rfl, hright⟩
  rw [List.modify_id] at hon
  exact hon

/-- **One call answers rightly and keeps the record.**  Only for the call of a model do the models
of the solver matter. -/
theorem run_isRight (hs : solver.Decides) (h : Keeps ts fss) (c : Call)
    (hmodels : ∀ i, c = .model i → solver.FindsModels) :
    Keeps (c.run ts).value.2 (c.record fss) ∧ c.IsRight fss (c.run ts).value.1 := by
  cases c with
  | create =>
    refine ⟨⟨?_, ?_⟩, rfl⟩
    · exact List.forall_mem_append.2
        ⟨h.isCompiled, List.forall_mem_singleton.2 ClassicalTheory.isCompiled_empty⟩
    · rw [record, ← h.formulas, run, Logged.value_pure, List.map_append]
      rfl
  | clone i =>
    refine ⟨⟨?_, ?_⟩, ?_⟩
    · refine List.forall_mem_append.2 ⟨h.isCompiled, ?_⟩
      intro t ht
      exact h.isCompiled t (List.mem_of_getElem? (Option.mem_toList.1 ht))
    · rw [record, h.getElem? i, ← h.formulas, run, Logged.value_pure, List.map_append]
      cases ts[i]? <;> rfl
    · rw [IsRight]
      cases (Call.clone i).place?.bind (fss[·]?) <;> rfl
  | add i f =>
    exact on_isRight h rfl fun t ht => ⟨ClassicalTheory.isCompiled_add ht f, rfl, rfl⟩
  | satisfiable i f? =>
    apply on_isRight_of_eq h rfl
    intro t ht
    refine ⟨ClassicalTheory.after_eq ht.isExact f?, _, rfl, ?_⟩
    exact ClassicalTheory.value_satisfiable_iff hs ht f?
  | entails i f =>
    apply on_isRight_of_eq h rfl
    intro t ht
    refine ⟨ClassicalTheory.after_eq ht.isExact (some (.not f)), _, rfl, ?_⟩
    exact ClassicalTheory.value_entails_iff hs ht f
  | model i =>
    apply on_isRight_of_eq h rfl
    intro t ht
    refine ⟨rfl, ?_⟩
    show IsRightAbout t.formulas (.model i) (.model t.model)
    have hnone := ClassicalTheory.model_eq_none_iff hs ht
    cases hm : t.model with
    | none => exact hnone.1 hm
    | some m =>
      rw [hm] at hnone
      constructor
      · exact Classical.not_not.1 fun hnot => Option.some_ne_none m (hnone.2 hnot)
      · intro v hv
        exact ClassicalTheory.satisfies_of_model (hmodels i rfl) ht hm hv

end Call

/-! ## Runs -/

/-- Makes calls one after the other and gathers their answers. -/
def runAll {solver : Solver} : List Call → List (ClassicalTheory solver) →
    Logged (List Answer × List (ClassicalTheory solver))
  | [], ts => pure ([], ts)
  | c :: cs, ts => do
    let (answer, ts) ← c.run ts
    let (answers, ts) ← runAll cs ts
    pure (answer :: answers, ts)

def recordAll : List Call → List (List Formula) → List (List Formula)
  | [], fss => fss
  | c :: cs, fss => recordAll cs (c.record fss)

/-- Whether there is one answer for each call, right about the record as it was then. -/
def AreRight : List Call → List (List Formula) → List Answer → Prop
  | [], _, [] => True
  | c :: cs, fss, answer :: answers => c.IsRight fss answer ∧ AreRight cs (c.record fss) answers
  | _, _, _ => False

theorem runAll_keeps {solver : Solver} (hs : solver.Decides) {ts : List (ClassicalTheory solver)}
    {fss : List (List Formula)} (h : Call.Keeps ts fss) (cs : List Call)
    (hmodels : ∀ i, .model i ∈ cs → solver.FindsModels) :
    Call.Keeps (runAll cs ts).value.2 (recordAll cs fss) ∧
      AreRight cs fss (runAll cs ts).value.1 := by
  induction cs generalizing ts fss with
  | nil => exact ⟨h, trivial⟩
  | cons c cs ih =>
    obtain ⟨hkeeps, hright⟩ := Call.run_isRight hs h c fun i hi =>
      hmodels i (hi ▸ List.mem_cons_self)
    obtain ⟨hall, hrights⟩ := ih hkeeps fun i hi => hmodels i (List.mem_cons_of_mem c hi)
    exact ⟨hall, hright, hrights⟩

/-- **In every run of calls, on any mixture of theories and their copies, every answer is right
about the formulas that were added to the theory that gave it**, and these are the formulas it
holds.  The solver decides, and where a model is called for, its models are models. -/
theorem runAll_isRight {solver : Solver} (hs : solver.Decides) (cs : List Call)
    (hmodels : ∀ i, .model i ∈ cs → solver.FindsModels) :
    AreRight cs [] (runAll cs ([] : List (ClassicalTheory solver))).value.1 ∧
      (runAll cs ([] : List (ClassicalTheory solver))).value.2.map ClassicalTheory.formulas =
        recordAll cs [] := by
  have hempty : Call.Keeps ([] : List (ClassicalTheory solver)) [] :=
    ⟨fun _ ht => absurd ht List.not_mem_nil, rfl⟩
  obtain ⟨hkeeps, hright⟩ := runAll_keeps hs hempty cs hmodels
  exact ⟨hright, hkeeps.formulas⟩

/-- A theory and its copy part when only the copy is told that `a` fails. -/
theorem runAll_isRight_parted :
    let calls : List Call := [.create, .add 0 (.or [.atom "a", .atom "b"]), .clone 0,
      .add 1 (.not (.atom "a")), .entails 1 (.atom "b"), .entails 0 (.atom "b"),
      .satisfiable 0 (some (.not (.atom "c"))), .model 0, .add 1 (.or []), .satisfiable 1 none]
    let answers : List Answer := [.nothing, .nothing, .nothing, .nothing, .truth true, .truth false,
      .truth true, .model (some [("a", false), ("b", true)]), .nothing, .truth false]
    solve.Decides ∧ (∀ i, .model i ∈ calls → solve.FindsModels) ∧
      (runAll calls ([] : List (ClassicalTheory solve))).value.1 = answers ∧
      AreRight calls [] answers := by
  intro calls answers
  have hrun : (runAll calls ([] : List (ClassicalTheory solve))).value.1 = answers := by
    cbv
  have hright := (runAll_isRight solve_decides calls fun _ _ => solve_findsModels).1
  rw [hrun] at hright
  exact ⟨solve_decides, fun _ _ => solve_findsModels, hrun, hright⟩

end DefaultLogic
