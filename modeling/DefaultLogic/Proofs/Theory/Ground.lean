import DefaultLogic.Formula.Semantics
import DefaultLogic.Theory.Ground

/-!
# Readings of a ground logic

A reading of a ground logic says which formulas a theory holds and through which translation it
takes them.  Its laws are all that default reasoning uses: adding appends, and checks answer what
they should about the translations and keep what the theory says.

* `Reading.addAll`: adding several formulas.
* `Reading.entailsAll_iff`: all formulas of a list are entailed.
-/

namespace DefaultLogic

def Satisfies (v : Valuation) (fs : List Formula) : Prop := ∀ f ∈ fs, f.eval v = true

theorem satisfies_append {v : Valuation} {fs gs : List Formula} :
    Satisfies v (fs ++ gs) ↔ Satisfies v fs ∧ Satisfies v gs := List.forall_mem_append

theorem satisfies_singleton {v : Valuation} {f : Formula} :
    Satisfies v [f] ↔ f.eval v = true := List.forall_mem_singleton

theorem satisfies_map {v : Valuation} {m : Formula → Formula} {fs : List Formula} :
    Satisfies v (fs.map m) ↔ ∀ f ∈ fs, (m f).eval v = true := List.forall_mem_map

def Entails (fs : List Formula) (f : Formula) : Prop := ∀ v, Satisfies v fs → f.eval v = true

def Consistent (fs : List Formula) (f : Formula) : Prop := ∃ v, Satisfies v fs ∧ f.eval v = true

theorem value_entailsAll_cons {T : Type} [GroundLogic T] (f : Formula) (fs : List Formula) (t : T) :
    (GroundLogic.entailsAll (f :: fs) t).value =
      if (GroundLogic.entails f t).value.1 then
        (GroundLogic.entailsAll fs (GroundLogic.entails f t).value.2).value
      else (false, (GroundLogic.entails f t).value.2) := by
  rw [GroundLogic.entailsAll, Logged.value_bind]
  exact apply_ite Logged.value _ _ _

/-- `Reads m fs t` says that the theory `t` holds the formulas `fs`, which it takes through `m`. -/
structure Reading (T : Type) [GroundLogic T] where
  Reads : (Formula → Formula) → List Formula → T → Prop
  formulas {m fs t} : Reads m fs t → GroundLogic.formulas t = fs
  add {m fs t} (f : Formula) : Reads m fs t → Reads m (fs ++ [f]) (GroundLogic.add t f)
  afterSatisfiable {m fs t} (f? : Option Formula) : Reads m fs t →
    Reads m fs (GroundLogic.satisfiable f? t).value.2
  satisfiable_iff {m fs t} (f? : Option Formula) : Reads m fs t →
    ((GroundLogic.satisfiable f? t).value.1 = true ↔
      ∃ v, Satisfies v ((fs ++ f?.toList).map m))
  afterEntails {m fs t} (f : Formula) : Reads m fs t →
    Reads m fs (GroundLogic.entails f t).value.2
  entails_iff {m fs t} (f : Formula) : Reads m fs t →
    ((GroundLogic.entails f t).value.1 = true ↔ Entails (fs.map m) (m f))

namespace Reading

variable {T : Type} [GroundLogic T] (R : Reading T) {m : Formula → Formula} {fs : List Formula}
  {t : T}

theorem addAll (gs : List Formula) (h : R.Reads m fs t) :
    R.Reads m (fs ++ gs) (GroundLogic.addAll t gs) := by
  induction gs generalizing fs t with
  | nil =>
    rw [List.append_nil]
    exact h
  | cons g gs ih =>
    rw [List.append_cons]
    exact ih (R.add g h)

theorem consistent_iff (f : Formula) (h : R.Reads m fs t) :
    (GroundLogic.satisfiable (some f) t).value.1 = true ↔ Consistent (fs.map m) (m f) := by
  rw [R.satisfiable_iff (some f) h]
  refine exists_congr fun v => ?_
  rw [List.map_append, satisfies_append]
  exact and_congr_right fun _ => satisfies_singleton

theorem entailsAll_iff (gs : List Formula) (h : R.Reads m fs t) :
    ((GroundLogic.entailsAll gs t).value.1 = true ↔ ∀ g ∈ gs, Entails (fs.map m) (m g)) ∧
      R.Reads m fs (GroundLogic.entailsAll gs t).value.2 := by
  induction gs generalizing t with
  | nil => exact ⟨⟨fun _ g hg => absurd hg List.not_mem_nil, fun _ => rfl⟩, h⟩
  | cons g gs ih =>
    have hg := R.entails_iff g h
    obtain ⟨hall, hread⟩ := ih (R.afterEntails g h)
    rw [value_entailsAll_cons, List.forall_mem_cons, ← hg]
    cases hb : (GroundLogic.entails g t).value.1 with
    | true => exact ⟨hall.trans (and_iff_right rfl).symm, hread⟩
    | false => exact ⟨iff_of_false Bool.false_ne_true fun h => Bool.false_ne_true h.1,
        R.afterEntails g h⟩

end Reading

end DefaultLogic
