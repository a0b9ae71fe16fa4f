import DefaultLogic.Proofs.Theory.Paraconsistent
import DefaultLogic.Theory.Sharing

/-!
# Sharing compiled theories

A theory in a memory is *seen* as a theory that keeps its compiled theory for itself.  As long as no
token is taken twice, what other theories do in the memory cannot be seen, and each call does to the
theory that is seen what it would do without sharing.

* `cell?_eq_none`: with a token that was not taken before, a theory has no compiled theory.
* `LivesIn.seen_eq`: a theory is seen the same while tokens are taken and cells are filled.
* `compile_spec`: the compiled theory is that of the formulas and inconsistent atoms.
* `refines_satisfiable`, `refines_entails`, `refines_compiledTheory`, `refines_add`,
  `refines_setInconsistent`: **a call does what it does without sharing.**
-/

namespace DefaultLogic

open DefaultLogic.Sat

variable {solver : Solver}

/-! ## Tokens -/

theorem Generation.ofNat_injOn {k l : Nat} (hk : k < UInt64.size) (hl : l < UInt64.size)
    (h : ofNat k = ofNat l) : k = l := by
  have htoken := congrArg (UInt64.toNat ∘ Generation.token) h
  simp only [Function.comp, ofNat, UInt64.toNat_ofNat', Nat.mod_eq_of_lt hk,
    Nat.mod_eq_of_lt hl] at htoken
  exact htoken

namespace Memory

def Took (m : Memory solver) (g : Generation) : Prop := ∃ k < m.taken, g = .ofNat k

/-- Before the counter starts again, the next token was never taken. -/
theorem not_took_next {m : Memory solver} (h : m.taken < UInt64.size) : ¬m.Took m.next := by
  rintro ⟨k, hk, heq⟩
  exact Nat.ne_of_lt hk (Generation.ofNat_injOn (Nat.lt_trans hk h) h heq.symm)

theorem took_next (m : Memory solver) : m.advance.Took m.next :=
  ⟨m.taken, Nat.lt_succ_self m.taken, rfl⟩

def IsSound (m : Memory solver) : Prop := ∀ cell ∈ m.cells, m.Took cell.generation

/-- What calls leave of a memory: tokens are taken and cells are filled, but none is changed. -/
structure Extends (m m' : Memory solver) : Prop where
  taken : m.taken ≤ m'.taken
  cells : m.cells <+: m'.cells

theorem Extends.refl (m : Memory solver) : m.Extends m := ⟨Nat.le_refl _, List.prefix_refl _⟩

theorem extends_advance (m : Memory solver) : m.Extends m.advance :=
  ⟨Nat.le_succ _, List.prefix_refl _⟩

theorem extends_fill (m : Memory solver) (cell : Cell solver) : m.Extends (m.fill cell) :=
  ⟨Nat.le_refl _, List.prefix_append _ _⟩

variable {m m' : Memory solver}

theorem Extends.took (h : m.Extends m') {g : Generation} (hg : m.Took g) : m'.Took g := by
  obtain ⟨k, hk, rfl⟩ := hg
  exact ⟨k, Nat.lt_of_lt_of_le hk h.taken, rfl⟩

theorem IsSound.advance (h : m.IsSound) : m.advance.IsSound :=
  fun cell hcell => m.extends_advance.took (h cell hcell)

theorem IsSound.fill (h : m.IsSound) {cell : Cell solver} (hcell : m.Took cell.generation) :
    (m.fill cell).IsSound := by
  intro other hother
  rcases List.mem_append.1 hother with hother | hother
  · exact h other hother
  · obtain rfl := List.mem_singleton.1 hother
    exact hcell

theorem put_eq {address : Nat} {cell : Cell solver} (h : m.cells[address]? = some cell) :
    m.put address cell.theory = m := by
  obtain ⟨taken, cells⟩ := m
  simp only [put, mk.injEq, true_and]
  refine List.ext_getElem? fun i => ?_
  rw [List.getElem?_modify]
  by_cases hi : address = i
  · subst hi
    rw [h]
    simp
  · simp [hi]

end Memory

namespace SharedTheory

variable {m m' : Memory solver} {t : SharedTheory}

/-! ## What is seen -/

theorem cell?_eq_some_iff {address : Nat} {c : ClassicalTheory solver} :
    t.cell? m = some (address, c) ↔ t.address? = some address ∧
      m.cells[address]? = some ⟨t.generation, c⟩ := by
  rw [cell?]
  cases ht : t.address? with
  | none => exact iff_of_false (fun h => nomatch h) fun h => nomatch h.1
  | some a =>
    cases hcell : m.cells[a]? with
    | none =>
      refine iff_of_false (fun h => ?_) fun h => ?_
      · rw [Option.bind_eq_bind, Option.bind_some, hcell] at h
        cases h
      · obtain ⟨rfl, h⟩ := h.imp_left Option.some.inj
        rw [hcell] at h
        cases h
    | some cell =>
      obtain ⟨g, c'⟩ := cell
      rw [Option.bind_eq_bind, Option.bind_some, hcell, Option.bind_eq_bind, Option.bind_some]
      dsimp only
      split
      · next hg =>
        subst hg
        simp only [Option.some.injEq, Prod.mk.injEq]
        constructor
        · rintro ⟨rfl, rfl⟩
          exact ⟨rfl, hcell⟩
        · rintro ⟨rfl, h⟩
          rw [hcell] at h
          cases h
          exact ⟨rfl, rfl⟩
      · next hg =>
        refine iff_of_false (fun h => nomatch h) fun h => ?_
        obtain ⟨rfl, h⟩ := h.imp_left Option.some.inj
        rw [hcell] at h
        cases h
        exact hg rfl

theorem cell?_eq_none (hm : m.IsSound) (ht : ¬m.Took t.generation) : t.cell? m = none := by
  refine Option.eq_none_iff_forall_ne_some.2 fun found hfound => ht ?_
  obtain ⟨address, c⟩ := found
  exact hm _ (List.mem_of_getElem? (cell?_eq_some_iff.1 hfound).2)

theorem cell?_of_extends (h : m.Extends m')
    (ht : ∀ address ∈ t.address?, address < m.cells.length) : t.cell? m' = t.cell? m := by
  obtain ⟨more, hmore⟩ := h.cells
  refine Option.ext fun found => ?_
  obtain ⟨address, c⟩ := found
  rw [cell?_eq_some_iff, cell?_eq_some_iff, ← hmore]
  refine and_congr_right fun haddress => ?_
  rw [List.getElem?_append_left (ht address haddress)]

/-- A theory as it is without sharing. -/
def seen (m : Memory solver) (t : SharedTheory) : ParaconsistentTheory solver :=
  ⟨t.formulas, t.inconsistent, (t.cell? m).map Prod.snd⟩

structure LivesIn (m : Memory solver) (t : SharedTheory) : Prop where
  transformer : t.transformer = .paraconsistent t.inconsistent
  took : m.Took t.generation
  address : ∀ address ∈ t.address?, address < m.cells.length
  isFresh : (t.seen m).IsFresh

/-- **While tokens are taken and cells are filled a theory is seen the same.** -/
theorem LivesIn.seen_eq (ht : t.LivesIn m) (h : m.Extends m') : t.seen m' = t.seen m := by
  rw [seen, cell?_of_extends h ht.address, seen]

theorem LivesIn.of_extends (ht : t.LivesIn m) (h : m.Extends m') : t.LivesIn m' where
  transformer := ht.transformer
  took := h.took ht.took
  address := fun address haddress => Nat.lt_of_lt_of_le (ht.address address haddress)
    h.cells.length_le
  isFresh := by
    rw [ht.seen_eq h]
    exact ht.isFresh

theorem LivesIn.transform_eq (ht : t.LivesIn m) : t.transform = Formula.pnnf t.inconsistent := by
  funext f
  rw [transform, ht.transformer]
  rfl

/-! ## Calls -/

/-- A call on a theory in a memory answers, logs and leaves the theory as it would without sharing,
and leaves the memory good for other theories. -/
structure Refines {α : Type} (m : Memory solver) (x : Logged (α × SharedTheory × Memory solver))
    (y : Logged (α × ParaconsistentTheory solver)) : Prop where
  events : x.events = y.events
  answer : x.value.1 = y.value.1
  seen : x.value.2.1.seen x.value.2.2 = y.value.2
  livesIn : x.value.2.1.LivesIn x.value.2.2
  isSound : x.value.2.2.IsSound
  keeps : m.Extends x.value.2.2

/-- A changed theory takes a new token, so it has lost its compiled theory. -/
theorem seen_changed (hm : m.IsSound) (htaken : m.taken < UInt64.size)
    (ht : t.generation = m.next) : t.seen m.advance = ⟨t.formulas, t.inconsistent, none⟩ := by
  have hnone : t.cell? m = none := by
    refine cell?_eq_none hm ?_
    rw [ht]
    exact Memory.not_took_next htaken
  have hsame : t.cell? m.advance = t.cell? m := rfl
  rw [seen, hsame, hnone]
  rfl

theorem refines_changed (hm : m.IsSound) (htaken : m.taken < UInt64.size) {t' : SharedTheory}
    (ht : t'.generation = m.next) (htransformer : t'.transformer = .paraconsistent t'.inconsistent)
    (haddress : ∀ address ∈ t'.address?, address < m.cells.length) :
    Refines m (pure ((), t', m.advance)) (pure ((), ⟨t'.formulas, t'.inconsistent, none⟩)) where
  events := rfl
  answer := rfl
  seen := seen_changed hm htaken ht
  livesIn :=
    { transformer := htransformer
      took := by
        show m.advance.Took t'.generation
        rw [ht]
        exact m.took_next
      address := haddress
      isFresh := by
        show (t'.seen m.advance).IsFresh
        rw [seen_changed hm htaken ht]
        exact ParaconsistentTheory.isFresh_of_none rfl }
  isSound := hm.advance
  keeps := m.extends_advance

theorem refines_create (hm : m.IsSound) (htaken : m.taken < UInt64.size) :
    Refines m (pure ((), create m)) (pure ((), {})) :=
  refines_changed hm htaken rfl rfl fun _ h => nomatch h

theorem refines_add (hm : m.IsSound) (ht : t.LivesIn m) (htaken : m.taken < UInt64.size)
    (f : Formula) : Refines m (pure ((), t.add f m)) (pure ((), (t.seen m).add f)) :=
  refines_changed hm htaken rfl ht.transformer ht.address

theorem refines_setInconsistent (hm : m.IsSound) (ht : t.LivesIn m) (names : List String)
    (htaken : sortedNames names ≠ t.inconsistent → m.taken < UInt64.size) :
    Refines m (pure ((), t.setInconsistent names m))
      (pure ((), (t.seen m).setInconsistent names)) := by
  have hseen : (t.seen m).inconsistent = t.inconsistent := rfl
  rw [setInconsistent, ParaconsistentTheory.setInconsistent, hseen]
  by_cases hnames : sortedNames names = t.inconsistent
  · rw [if_pos hnames, if_pos hnames]
    exact ⟨rfl, rfl, rfl, ht, hm, .refl m⟩
  · rw [if_neg hnames, if_neg hnames]
    exact refines_changed hm (htaken hnames) rfl rfl ht.address

/-- **The compiled theory is that of the formulas and inconsistent atoms as they are**, and it is in
the cell of the theory. -/
theorem compile_spec (hm : m.IsSound) (ht : t.LivesIn m) :
    ∃ address t' m', (t.compile m).value = ((address, (t.seen m).classical), t', m') ∧
      (t.compile m).events = (t.seen m).compile.events ∧
      m'.cells[address]? = some ⟨t'.generation, (t.seen m).classical⟩ ∧
      t'.seen m' = (t.seen m).compiled ∧ t'.LivesIn m' ∧ m'.IsSound ∧ m.Extends m' := by
  cases hcell : t.cell? m with
  | some found =>
    obtain ⟨address, c⟩ := found
    have hkept : (t.seen m).compiled? = some c := by
      rw [seen, hcell]
      rfl
    obtain rfl : c = (t.seen m).classical := ht.isFresh c hkept
    refine ⟨address, t, m, ?_, ?_, (cell?_eq_some_iff.1 hcell).2, ?_, ht, hm, .refl m⟩
    · rw [compile, hcell]
      rfl
    · rw [compile, hcell, ParaconsistentTheory.compile, hkept]
      rfl
    · rw [ParaconsistentTheory.compiled, ← hkept]
  | none =>
    have hkept : (t.seen m).compiled? = none := by
      rw [seen, hcell]
      rfl
    have hclassical : ClassicalTheory.ofFormulas (t.formulas.map t.transform) =
        (t.seen m).classical := by
      rw [ht.transform_eq]
      rfl
    let cell : Cell solver := ⟨t.generation, (t.seen m).classical⟩
    let t' : SharedTheory := { t with address? := some m.cells.length }
    have hget : (m.fill cell).cells[m.cells.length]? = some cell := List.getElem?_concat_length
    have hseen : t'.seen (m.fill cell) = (t.seen m).compiled := by
      have hcell' : t'.cell? (m.fill cell) = some (m.cells.length, (t.seen m).classical) :=
        cell?_eq_some_iff.2 ⟨rfl, hget⟩
      rw [seen, hcell']
      rfl
    refine ⟨m.cells.length, t', m.fill cell, ?_, ?_, hget, hseen, ?_, hm.fill ht.took,
      m.extends_fill cell⟩
    · rw [compile, hcell, hclassical]
      rfl
    · rw [compile, hcell, ParaconsistentTheory.compile, hkept]
      rfl
    · refine ⟨ht.transformer, (m.extends_fill cell).took ht.took, ?_, ?_⟩
      · intro address haddress
        obtain rfl := Option.some.inj haddress
        exact (List.getElem?_eq_some_iff.1 hget).1
      · rw [hseen]
        exact ParaconsistentTheory.isFresh_compiled _

theorem refines_compiledTheory (hm : m.IsSound) (ht : t.LivesIn m) :
    Refines m (t.compiledTheory m) (t.seen m).compile := by
  obtain ⟨address, t', m', hvalue, hevents, -, hseen, hlives, hsound, hextends⟩ :=
    compile_spec hm ht
  have hresult : (t.compiledTheory m).value = ((t.seen m).classical, t', m') := by
    rw [compiledTheory, Logged.value_bind, hvalue]
    rfl
  have hlog : (t.compiledTheory m).events = (t.seen m).compile.events := by
    rw [compiledTheory, Logged.events_bind, hevents]
    exact List.append_nil _
  have hunshared := ParaconsistentTheory.value_compile ht.isFresh
  refine ⟨hlog, ?_, ?_, ?_, ?_, ?_⟩
  all_goals rw [hresult]
  · rw [hunshared]
  · rw [hunshared]
    exact hseen
  · exact hlives
  · exact hsound
  · exact hextends

theorem refines_ask (hm : m.IsSound) (ht : t.LivesIn m)
    {question : ClassicalTheory solver → Logged (Bool × ClassicalTheory solver)}
    (hquestion : (question (t.seen m).classical).value.2 = (t.seen m).classical)
    {y : Logged (Bool × ParaconsistentTheory solver)}
    (hvalue : y.value = ((question (t.seen m).classical).value.1, (t.seen m).compiled))
    (hevents : y.events = (t.seen m).compile.events ++ (question (t.seen m).classical).events) :
    Refines m (t.ask question m) y := by
  obtain ⟨address, t', m', hcompile, hlog, hcell, hseen, hlives, hsound, hextends⟩ :=
    compile_spec hm ht
  have hresult : (t.ask question m).value =
      ((question (t.seen m).classical).value.1, t', m') := by
    rw [ask, Logged.value_bind, hcompile, Logged.value_bind]
    show (_, t', m'.put address (question (t.seen m).classical).value.2) = _
    rw [hquestion, Memory.put_eq hcell]
  have hlog' : (t.ask question m).events = y.events := by
    rw [ask, Logged.events_bind, hcompile, hlog, hevents]
    exact congrArg _ (List.append_nil _)
  refine ⟨hlog', ?_, ?_, ?_, ?_, ?_⟩
  all_goals rw [hresult]
  · rw [hvalue]
  · rw [hvalue]
    exact hseen
  · exact hlives
  · exact hsound
  · exact hextends

theorem snd_value_satisfiable (u : ParaconsistentTheory solver) (f? : Option Formula) :
    (GroundLogic.satisfiable f? u.classical).value.2 = u.classical :=
  ClassicalTheory.after_eq u.isCompiled_classical.isExact f?

theorem snd_value_entails (u : ParaconsistentTheory solver) (f : Formula) :
    (GroundLogic.entails f u.classical).value.2 = u.classical :=
  ClassicalTheory.after_eq u.isCompiled_classical.isExact (some (.not f))

theorem refines_satisfiable (hm : m.IsSound) (ht : t.LivesIn m) (f? : Option Formula) :
    Refines m (t.satisfiable f? m) ((t.seen m).satisfiable f?) := by
  rw [satisfiable, ht.transform_eq]
  refine refines_ask hm ht (snd_value_satisfiable _ _)
    (ParaconsistentTheory.value_satisfiable ht.isFresh f?) ?_
  rw [ParaconsistentTheory.satisfiable, Logged.events_bind,
    ParaconsistentTheory.value_compile ht.isFresh]
  exact congrArg _ (List.append_nil _)

theorem refines_entails (hm : m.IsSound) (ht : t.LivesIn m) (f : Formula) :
    Refines m (t.entails f m) ((t.seen m).entails f) := by
  rw [entails, ht.transform_eq]
  refine refines_ask hm ht (snd_value_entails _ _)
    (ParaconsistentTheory.value_entails ht.isFresh f) ?_
  rw [ParaconsistentTheory.entails, Logged.events_bind,
    ParaconsistentTheory.value_compile ht.isFresh]
  exact congrArg _ (List.append_nil _)

end SharedTheory

end DefaultLogic
