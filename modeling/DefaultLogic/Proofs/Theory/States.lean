import DefaultLogic.Proofs.Theory.Calls
import Mathlib.Data.List.Induction

/-!
# The state of a classical theory

Adding a formula and cutting a query off again are all that changes how a theory is stored, so the
formulas that were added tell the whole state, whatever the solvers said in between.

* `eraseDups_concat`, `names_insertAll`: names are numbered in the order of their first occurrence.
* `names_ofFormulas`, `clauses_ofFormulas`: the atoms and the clauses of a theory made of formulas.
* `Call.run_map_ofFormulas`: one call leaves theories that are made of the formulas on record.
* `runEach_states`: **after every run of calls, each answered by a solver of its own, a theory is in
  the state that the formulas added to it determine.**
-/

namespace DefaultLogic

open DefaultLogic.Sat

/-! ## Names in the order of their first occurrence -/

theorem eraseDups_concat (xs : List String) (y : String) :
    (xs ++ [y]).eraseDups = if y ∈ xs then xs.eraseDups else xs.eraseDups ++ [y] := by
  have hsingle : [y].eraseDups = [y] := rfl
  rw [List.eraseDups_append]
  split
  · next hy => simp [List.removeAll, hy]
  · next hy => simp [List.removeAll, hy, hsingle]

theorem eraseDups_append_eraseDups (xs ys : List String) :
    (xs ++ ys.eraseDups).eraseDups = (xs ++ ys).eraseDups := by
  induction ys using List.reverseRecOn with
  | nil => rfl
  | append_singleton ys y ih =>
    rw [← List.append_assoc, eraseDups_concat (xs ++ ys), eraseDups_concat ys]
    split
    · next hy => rw [ih, if_pos (List.mem_append_right xs hy)]
    · next hy =>
      have hmem : y ∈ xs ++ ys.eraseDups ↔ y ∈ xs ++ ys := by
        rw [List.mem_append, List.mem_append, List.mem_eraseDups]
      rw [← List.append_assoc, eraseDups_concat, ih]
      simp only [hmem]

namespace Sat.Numbering

variable {n : Numbering}

theorem names_insertAll (h : n.IsExact) {xs : List String} (hn : n.names = xs.eraseDups)
    (ys : List String) : (n.insertAll ys).names = (xs ++ ys).eraseDups := by
  induction ys generalizing n xs with
  | nil => rw [List.append_nil, ← hn, insertAll, List.foldl_nil]
  | cons y ys ih =>
    have hy : (n.insert y).1.names = (xs ++ [y]).eraseDups := by
      have hmem : y ∈ n.names ↔ y ∈ xs := by rw [hn, List.mem_eraseDups]
      rw [eraseDups_concat]
      split
      · next hxs => rw [insert_of_mem h (hmem.2 hxs), hn]
      · next hxs => rw [insert_of_not_mem h (mt hmem.1 hxs), hn]
    rw [List.append_cons]
    exact ih (isExact_insert h y) hy

end Sat.Numbering

namespace ClassicalTheory

variable {solver : Solver}

/-! ## The state after additions -/

/-- The clauses of a formula whose atoms are numbered by their position among the names. -/
def numberedClauses (names : List String) (f : Formula) : List Clause :=
  f.clauses.filterMap fun c => Clause.ofList? (c.map fun a => ⟨names.idxOf a.1, a.2⟩)

/-- A theory is in the state that formulas determine.  Queries leave it there, whatever its solver
answers. -/
structure IsStateOf (t : ClassicalTheory solver) (fs : List Formula) : Prop where
  formulas : t.formulas = fs
  names : t.atoms.names = (fs.flatMap Formula.occurrences).eraseDups
  inverse : ∀ name i, t.atoms.index? name = some i ↔ t.atoms.name? i = some name
  clauses : t.clauses = fs.flatMap (numberedClauses t.atoms.names)
  afterSatisfiable : ∀ f?, (GroundLogic.satisfiable f? t).value.2 = t
  afterEntails : ∀ f, (GroundLogic.entails f t).value.2 = t

/-- Atoms in order of first occurrence have the atoms of all clauses, so clauses number none. -/
theorem names_add {t : ClassicalTheory solver} (h : t.atoms.IsExact) {xs : List String}
    (hnames : t.atoms.names = xs.eraseDups) (f : Formula) :
    (t.add f).atoms.names = (xs ++ f.occurrences).eraseDups := by
  have hexact := Numbering.isExact_insertAll h f.atoms
  have hinsert : (t.atoms.insertAll f.atoms).names = (xs ++ f.occurrences).eraseDups := by
    rw [Numbering.names_insertAll h hnames, Formula.atoms, eraseDups_append_eraseDups]
  have hknown : ∀ c ∈ f.clauses, ∀ a ∈ c, a.1 ∈ (t.atoms.insertAll f.atoms).names := by
    intro c hc a ha
    rw [hinsert, List.mem_eraseDups]
    exact List.mem_append_right _ (Formula.mem_occurrences_of_mem_signedClauses hc ha)
  show ((t.atoms.insertAll f.atoms).clauses f.clauses).1.names = _
  rw [Numbering.clauses_of_mem hexact hknown, hinsert]

theorem names_ofFormulas (fs : List Formula) :
    (ofFormulas fs : ClassicalTheory solver).atoms.names =
      (fs.flatMap Formula.occurrences).eraseDups := by
  induction fs using List.reverseRecOn with
  | nil => rfl
  | append_singleton fs f ih =>
    rw [ofFormulas_concat, names_add (isCompiled_ofFormulas fs).isExact ih, List.flatMap_append,
      List.flatMap_singleton]

theorem encode_eq_numberedClauses {n : Numbering} (h : n.IsExact) {f : Formula}
    (hf : ∀ c ∈ f.clauses, ∀ a ∈ c, a.1 ∈ n.names) :
    n.encode f.clauses = numberedClauses n.names f := by
  rw [numberedClauses, List.filterMap_eq_flatMap_toList, Numbering.encode, List.flatMap_def,
    List.flatMap_def]
  refine congrArg _ (List.map_congr_left fun c hc => ?_)
  rw [List.map_congr_left fun a ha => Numbering.code_eq (h.index?_eq_idxOf (hf c hc a ha))]

theorem clauses_ofFormulas (fs : List Formula) :
    (ofFormulas fs : ClassicalTheory solver).clauses =
      fs.flatMap (numberedClauses (ofFormulas fs : ClassicalTheory solver).atoms.names) := by
  have h : (ofFormulas fs : ClassicalTheory solver).Encodes fs := by
    have hcompiled : (ofFormulas fs : ClassicalTheory solver).IsCompiled := isCompiled_ofFormulas fs
    rwa [IsCompiled, formulas_ofFormulas] at hcompiled
  rw [h.clauses, List.flatMap_def, List.flatMap_def]
  refine congrArg _ (List.map_congr_left fun f hf => ?_)
  exact encode_eq_numberedClauses h.isExact (h.known f hf)

/-- **A theory made of formulas is in the state that they determine.** -/
theorem isStateOf_ofFormulas (fs : List Formula) :
    (ofFormulas fs : ClassicalTheory solver).IsStateOf fs := by
  have hexact : (ofFormulas fs : ClassicalTheory solver).atoms.IsExact :=
    (isCompiled_ofFormulas fs).isExact
  exact
    { formulas := formulas_ofFormulas fs
      names := names_ofFormulas fs
      inverse := fun _ _ => hexact.index?_eq_some_iff
      clauses := clauses_ofFormulas fs
      afterSatisfiable := fun f? => after_eq hexact f?
      afterEntails := fun f => after_eq hexact (some (.not f)) }

def withSolver (other : Solver) (t : ClassicalTheory solver) : ClassicalTheory other :=
  ⟨t.formulas, t.atoms, t.clauses⟩

theorem withSolver_ofFormulas (other : Solver) (fs : List Formula) :
    (ofFormulas fs : ClassicalTheory solver).withSolver other = ofFormulas fs := by
  induction fs using List.reverseRecOn with
  | nil => rfl
  | append_singleton fs f ih =>
    rw [ofFormulas_concat, ofFormulas_concat, ← ih]
    rfl

end ClassicalTheory

/-! ## One call -/

namespace Call

variable {solver : Solver}

theorem snd_value_on (i : Nat)
    (call : ClassicalTheory solver → Logged (Answer × ClassicalTheory solver))
    (ts : List (ClassicalTheory solver)) :
    (on i call ts).value.2 = ts.modify i fun t => (call t).value.2 := by
  rw [on]
  split
  · next hnone => rw [List.modify_eq_self (List.getElem?_eq_none_iff.1 hnone)]; rfl
  · next t hsome => rw [List.modify_eq_set_getElem?, hsome]; rfl

theorem snd_value_on_map {call : ClassicalTheory solver → Logged (Answer × ClassicalTheory solver)}
    {change : List Formula → List Formula}
    (hcall : ∀ fs, (call (.ofFormulas fs)).value.2 = .ofFormulas (change fs)) (i : Nat)
    (fss : List (List Formula)) :
    (on i call (fss.map ClassicalTheory.ofFormulas)).value.2 =
      (fss.modify i change).map ClassicalTheory.ofFormulas := by
  rw [snd_value_on]
  refine List.ext_getElem? fun j => ?_
  rw [List.getElem?_modify, List.getElem?_map, List.getElem?_map, List.getElem?_modify]
  cases fss[j]? with
  | none => rfl
  | some fs =>
    by_cases hij : i = j
    · simp [hij, hcall]
    · simp [hij]

theorem snd_value_on_map_of_eq
    {call : ClassicalTheory solver → Logged (Answer × ClassicalTheory solver)}
    (hcall : ∀ fs, (call (.ofFormulas fs)).value.2 = .ofFormulas fs) (i : Nat)
    (fss : List (List Formula)) :
    (on i call (fss.map ClassicalTheory.ofFormulas)).value.2 =
      fss.map ClassicalTheory.ofFormulas := by
  have hchange : ∀ fs, (call (.ofFormulas fs)).value.2 = .ofFormulas (id fs) := hcall
  rw [snd_value_on_map hchange, List.modify_id]

/-- **A call on theories made of the formulas on record leaves such theories.** -/
theorem run_map_ofFormulas (c : Call) (fss : List (List Formula)) :
    (c.run (fss.map ClassicalTheory.ofFormulas : List (ClassicalTheory solver))).value.2 =
      (c.record fss).map ClassicalTheory.ofFormulas := by
  have hafter : ∀ fs, (.ofFormulas fs : ClassicalTheory solver).IsStateOf fs :=
    ClassicalTheory.isStateOf_ofFormulas
  cases c with
  | create =>
    show fss.map _ ++ [({} : ClassicalTheory solver)] = (fss ++ [[]]).map _
    rw [List.map_append]
    rfl
  | clone i =>
    show fss.map _ ++ (fss.map _)[i]?.toList = (fss ++ fss[i]?.toList).map _
    rw [List.map_append, List.getElem?_map, Option.toList_map]
  | add i f =>
    exact snd_value_on_map (fun fs => (ClassicalTheory.ofFormulas_concat fs f).symm) i fss
  | satisfiable i f? =>
    exact snd_value_on_map_of_eq (fun fs => (hafter fs).afterSatisfiable f?) i fss
  | entails i f =>
    exact snd_value_on_map_of_eq (fun fs => (hafter fs).afterEntails f) i fss
  | model i => exact snd_value_on_map_of_eq (fun _ => rfl) i fss

end Call

/-! ## Runs -/

/-- Makes calls one after the other, each with a solver of its own, and gathers their answers. -/
def runEach {solver : Solver} : List (Solver × Call) → List (ClassicalTheory solver) →
    Logged (List Answer × List (ClassicalTheory solver))
  | [], ts => pure ([], ts)
  | (other, c) :: cs, ts => do
    let (answer, ts) ← c.run (ts.map (·.withSolver other))
    let (answers, ts) ← runEach cs (ts.map (·.withSolver solver))
    pure (answer :: answers, ts)

theorem runEach_map_ofFormulas {solver : Solver} (cs : List (Solver × Call))
    (fss : List (List Formula)) :
    (runEach cs (fss.map ClassicalTheory.ofFormulas : List (ClassicalTheory solver))).value.2 =
      (recordAll (cs.map Prod.snd) fss).map ClassicalTheory.ofFormulas := by
  have hwith : ∀ (old new : Solver) (gss : List (List Formula)),
      (gss.map ClassicalTheory.ofFormulas).map (fun t : ClassicalTheory old => t.withSolver new) =
        gss.map ClassicalTheory.ofFormulas := by
    intro old new gss
    rw [List.map_map]
    exact List.map_congr_left fun fs _ => ClassicalTheory.withSolver_ofFormulas new fs
  induction cs generalizing fss with
  | nil => rfl
  | cons c cs ih =>
    obtain ⟨other, c⟩ := c
    show (runEach cs ((c.run ((fss.map _).map _)).value.2.map _)).value.2 = _
    rw [hwith, Call.run_map_ofFormulas, hwith]
    exact ih (c.record fss)

theorem runEach_same {solver : Solver} (cs : List Call) (ts : List (ClassicalTheory solver)) :
    (runEach (cs.map (Prod.mk solver)) ts).value = (runAll cs ts).value := by
  have hself : ∀ ts : List (ClassicalTheory solver), ts.map (·.withSolver solver) = ts :=
    fun ts => List.map_id ts
  induction cs generalizing ts with
  | nil => rfl
  | cons c cs ih =>
    have hrest := ih (c.run ts).value.2
    show ((c.run (ts.map _)).value.1 :: (runEach _ ((c.run (ts.map _)).value.2.map _)).value.1,
      (runEach _ ((c.run (ts.map _)).value.2.map _)).value.2) =
        ((c.run ts).value.1 :: (runAll cs (c.run ts).value.2).value.1,
          (runAll cs (c.run ts).value.2).value.2)
    rw [hself, hself, hrest]

/-- **After every run of calls, on any mixture of theories and their copies and whatever solvers
answer, a theory is in the state that the formulas added to it determine**: its atoms are numbered
in the order of their first occurrence, the two directions of the numbering are inverse to each
other, its clauses are those of the formulas that are no tautologies, in order, and queries leave
all of this as it is.  Theories to which the same formulas were added are equal. -/
theorem runEach_states {solver : Solver} (cs : List (Solver × Call)) :
    let theories := (runEach cs ([] : List (ClassicalTheory solver))).value.2
    let added := recordAll (cs.map Prod.snd) []
    theories = added.map ClassicalTheory.ofFormulas ∧
      List.Forall₂ ClassicalTheory.IsStateOf theories added := by
  intro theories added
  have hrun : theories = added.map ClassicalTheory.ofFormulas := runEach_map_ofFormulas cs []
  refine ⟨hrun, ?_⟩
  rw [hrun, List.forall₂_map_left_iff, List.forall₂_same]
  exact fun fs _ => ClassicalTheory.isStateOf_ofFormulas fs

/-- Atoms that only a query has get their numbers when a formula brings them, and a tautology brings
atoms though no clauses. -/
theorem runEach_states_cut :
    let calls : List (Solver × Call) := [(solve, .create),
      (silent, .satisfiable 0 (some (.and [.atom "q", .atom "r"]))),
      (solve, .add 0 (.or [.atom "p", .not (.atom "p")])), (silent, .entails 0 (.atom "r")),
      (solve, .clone 0), (silent, .model 1),
      (solve, .add 1 (.or [.and [.atom "q", .atom "r"], .not (.atom "q")]))]
    let theories := (runEach calls ([] : List (ClassicalTheory solve))).value.2
    theories.map (fun t => t.atoms.names) = [["p"], ["p", "q", "r"]] ∧
      theories.map ClassicalTheory.clauses = [[], [⟨[⟨1, false⟩, ⟨2, true⟩], by decide⟩]] ∧
      List.Forall₂ ClassicalTheory.IsStateOf theories (recordAll (calls.map Prod.snd) []) := by
  intro calls theories
  obtain ⟨hmade, hstates⟩ := @runEach_states solve calls
  have hadded : recordAll (calls.map Prod.snd) [] = [[.or [.atom "p", .not (.atom "p")]],
      [.or [.atom "p", .not (.atom "p")],
        .or [.and [.atom "q", .atom "r"], .not (.atom "q")]]] := rfl
  rw [hadded] at hmade
  refine ⟨?_, ?_, hstates⟩
  · show (runEach calls ([] : List (ClassicalTheory solve))).value.2.map _ = _
    rw [hmade]
    cbv
  · show (runEach calls ([] : List (ClassicalTheory solve))).value.2.map _ = _
    rw [hmade]
    cbv

end DefaultLogic
