import DefaultLogic.Proofs.Formula.NormalForm
import DefaultLogic.Proofs.Theory.Holding
import Mathlib.Computability.Primrec.List
import Mathlib.Data.List.Permutation

/-!
# The order of operands

The operands of a junction may stand in any order, and so may those of an equivalence where no
negation reaches it.  A negation that reaches an equivalence goes on to the right operand alone.
Classically it makes no difference to which, but an operand with inconsistent atoms need not be the
opposite of its negation.  Operands may then be exchanged where they are the opposites of their
negations under the same valuations.

* `ReorderedWhere`: formulas that differ in the order of operands, at any depth.
* `alike_iff`: **a negated equivalence keeps its meaning if its operands are exchanged exactly when
  they are alike.**
* `ReorderedWhere.eval_push`: so formulas that differ in an order that does not matter have the same
  truth value.
* `Reading.answersAlike`: theories told such formulas answer alike.
* `answersAlike_of_reordered`: **the order of operands has no meaning in a classical theory, and in
  a paraconsistent one but for the operands of negated equivalences that are not alike.**
-/

namespace DefaultLogic

open DefaultLogic.Sat

variable {S : List String} {v : Valuation} {f g l r : Formula}

namespace Formula

/-! ## Reordered formulas -/

/-- Formulas that differ only in the order of operands, at any depth: those of junctions are
permuted, and those of equivalences exchanged where this is allowed.  The sign tells whether a
negation reaches the formula. -/
inductive ReorderedWhere (mayExchange : Bool → Formula → Formula → Prop) :
    Bool → Formula → Formula → Prop
  | refl {positive} (f : Formula) : ReorderedWhere mayExchange positive f f
  | trans {positive f g h} : ReorderedWhere mayExchange positive f g →
    ReorderedWhere mayExchange positive g h → ReorderedWhere mayExchange positive f h
  | permuted {positive} (j : Junction) {fs gs : List Formula} :
    fs.Perm gs → ReorderedWhere mayExchange positive (.junction j fs) (.junction j gs)
  | exchanged {positive l r} :
    mayExchange positive l r → ReorderedWhere mayExchange positive (.equiv l r) (.equiv r l)
  | not {positive f g} : ReorderedWhere mayExchange (!positive) f g →
    ReorderedWhere mayExchange positive (.not f) (.not g)
  | operand {positive f g} (j : Junction) (before after : List Formula) :
    ReorderedWhere mayExchange positive f g → ReorderedWhere mayExchange positive
      (.junction j (before ++ f :: after)) (.junction j (before ++ g :: after))
  | arrow {positive l r l' r'} (a : Arrow) :
    ReorderedWhere mayExchange (a.leftSign positive) l l' →
    ReorderedWhere mayExchange positive r r' →
      ReorderedWhere mayExchange positive (.arrow a l r) (.arrow a l' r')

/-- Formulas that differ only in the order of operands of conjunctions, disjunctions and
equivalences. -/
def Reordered (f g : Formula) : Prop := ReorderedWhere (fun _ _ _ => True) true f g

/-- Whether two formulas have the same truth value as their negations under the same valuations,
which without inconsistent atoms is under none. -/
def Alike (inconsistent : List String) (l r : Formula) : Prop :=
  ∀ v, (l.pnnf inconsistent).eval v = ((Formula.not l).pnnf inconsistent).eval v ↔
    (r.pnnf inconsistent).eval v = ((Formula.not r).pnnf inconsistent).eval v

/-- Formulas that differ only in an order of operands that does not matter under the given
inconsistent atoms: equivalences that a negation reaches have their operands exchanged only if these
are alike. -/
def ReorderedUnder (inconsistent : List String) (f g : Formula) : Prop :=
  ReorderedWhere (fun positive l r => positive = true ∨ Alike inconsistent l r) true f g

/-! ## Exchanged operands -/

/-- **A negated equivalence keeps its meaning if its operands are exchanged exactly when they are
alike.** -/
theorem alike_iff : Alike S l r ↔
    ∀ v, ((Formula.not (.equiv l r)).pnnf S).eval v =
      ((Formula.not (.equiv r l)).pnnf S).eval v := by
  have hvalues : ∀ b c b' c' : Bool, (b = c ↔ b' = c') ↔ (b == c') = (b' == c) := by
    decide
  exact forall_congr' fun v => hvalues _ _ _ _

theorem alike_of_disjoint (hl : ∀ a ∈ l.occurrences, a ∉ S) (hr : ∀ a ∈ r.occurrences, a ∉ S) :
    Alike S l r := by
  have hopposite : ∀ {f : Formula}, (∀ a ∈ f.occurrences, a ∉ S) → ∀ v,
      (f.pnnf S).eval v ≠ ((Formula.not f).pnnf S).eval v := by
    intro f hf v
    have hnot : ∀ a ∈ (Formula.not f).occurrences, a ∉ S := hf
    rw [eval_pnnf_of_disjoint hf, eval_pnnf_of_disjoint hnot, eval]
    exact (Bool.eq_not_self _).1
  exact fun v => iff_of_false (hopposite hl v) (hopposite hr v)

theorem eval_push_exchanged {positive : Bool} (h : positive = true ∨ Alike S l r) (v : Valuation) :
    ((equiv l r).push (.paraconsistent S) positive).eval v =
      ((equiv r l).push (.paraconsistent S) positive).eval v := by
  cases positive with
  | true => exact BEq.comm
  | false => exact alike_iff.1 (h.resolve_left Bool.false_ne_true) v

/-! ## Truth values -/

theorem eval_junction_of_perm (j : Junction) {fs gs : List Formula} (h : fs.Perm gs)
    (v : Valuation) : (junction j fs).eval v = (junction j gs).eval v := by
  rw [eval_junction, eval_junction]
  cases j with
  | and => exact (h.map _).all_eq
  | or => exact (h.map _).any_eq

/-- **Formulas that differ only in the order of operands have normal forms with the same truth
value**, if exchanging the operands of an equivalence keeps it where this is allowed. -/
theorem ReorderedWhere.eval_push {s : NegationStyle}
    {mayExchange : Bool → Formula → Formula → Prop} (hexchanged : ∀ positive l r v,
      mayExchange positive l r →
        ((equiv l r).push s positive).eval v = ((equiv r l).push s positive).eval v)
    {positive : Bool} (h : ReorderedWhere mayExchange positive f g) (v : Valuation) :
    (f.push s positive).eval v = (g.push s positive).eval v := by
  induction h with
  | refl f => rfl
  | trans _ _ ihf ihg => exact ihf.trans ihg
  | permuted j hperm =>
    rw [push_junction, push_junction]
    exact eval_junction_of_perm _ (hperm.map _) v
  | exchanged hmay => exact hexchanged _ _ _ v hmay
  | not _ ih => exact ih
  | operand j before after _ ih =>
    rw [push_junction, push_junction, eval_junction, eval_junction]
    simp only [List.map_append, List.map_cons, ih]
  | arrow a _ _ ihl ihr => exact eval_push_arrow_congr rfl ihl ihr

theorem ReorderedUnder.eval_pnnf (h : ReorderedUnder S f g) (v : Valuation) :
    (f.pnnf S).eval v = (g.pnnf S).eval v :=
  ReorderedWhere.eval_push (fun _ _ _ v hmay => eval_push_exchanged hmay v) h v

/-- Classically, the operands of every equivalence may be exchanged: without inconsistent atoms all
formulas are alike. -/
theorem Reordered.eval (h : Reordered f g) (v : Valuation) : f.eval v = g.eval v := by
  have hpush : (f.pnnf []).eval v = (g.pnnf []).eval v := by
    refine ReorderedWhere.eval_push (fun positive l r v _ => ?_) h v
    exact eval_push_exchanged (.inr (alike_of_disjoint (fun _ _ => List.not_mem_nil)
      fun _ _ => List.not_mem_nil)) v
  rwa [eval_pnnf_nil, eval_pnnf_nil] at hpush

end Formula

/-! ## Theories -/

/-- Whether two theories give the same answers, questions about related formulas included. -/
structure AnswersAlike {T : Type} [GroundLogic T] (Related : Formula → Formula → Prop)
    (t t' : T) : Prop where
  satisfiable :
    (GroundLogic.satisfiable none t).value.1 = (GroundLogic.satisfiable none t').value.1
  consistent : ∀ f g, Related f g → (GroundLogic.satisfiable (some f) t).value.1 =
    (GroundLogic.satisfiable (some g) t').value.1
  entails : ∀ f g, Related f g →
    (GroundLogic.entails f t).value.1 = (GroundLogic.entails g t').value.1

variable {Related : Formula → Formula → Prop} {m : Formula → Formula} {fs gs : List Formula}

section

variable (hrelated : ∀ f g, Related f g → ∀ v, (m f).eval v = (m g).eval v)

include hrelated

theorem satisfies_map_congr (h : List.Forall₂ Related fs gs) (v : Valuation) :
    Satisfies v (fs.map m) ↔ Satisfies v (gs.map m) := by
  rw [satisfies_map, satisfies_map]
  induction h with
  | nil => exact Iff.rfl
  | cons hfg _ ih =>
    rw [List.forall_mem_cons, List.forall_mem_cons, ih, hrelated _ _ hfg]

/-- **Theories that were told related formulas answer alike**, if related formulas are taken to
formulas of the same truth value. -/
theorem Reading.answersAlike {T : Type} [GroundLogic T] (R : Reading T) {t t' : T}
    (ht : R.Reads m fs t) (ht' : R.Reads m gs t') (h : List.Forall₂ Related fs gs) :
    AnswersAlike Related t t' where
  satisfiable := by
    rw [Bool.eq_iff_iff, R.satisfiable_iff none ht, R.satisfiable_iff none ht',
      Option.toList_none, List.append_nil, List.append_nil]
    exact exists_congr (satisfies_map_congr hrelated h)
  consistent f g hfg := by
    rw [Bool.eq_iff_iff, R.satisfiable_iff _ ht, R.satisfiable_iff _ ht']
    have hadded : List.Forall₂ Related (fs ++ [f]) (gs ++ [g]) :=
      List.rel_append h (.cons hfg .nil)
    exact exists_congr (satisfies_map_congr hrelated hadded)
  entails f g hfg := by
    rw [Bool.eq_iff_iff, R.entails_iff f ht, R.entails_iff g ht']
    refine forall_congr' fun v => imp_congr (satisfies_map_congr hrelated h v) ?_
    rw [hrelated f g hfg]

end

variable {solver : Solver}

open Formula

/-- A theory that was told nothing entails that a negated equivalence is the one with exchanged
operands exactly if these are alike. -/
theorem ParaconsistentTheory.entails_exchanged_iff (hs : solver.Decides)
    {t : ParaconsistentTheory solver} (ht : t.Holds [] S) (l r : Formula) :
    (GroundLogic.entails (.equiv (.not (.equiv l r)) (.not (.equiv r l))) t).value.1 = true ↔
      Alike S l r := by
  rw [Reading.entails_iff _ _ (ht.reads hs), alike_iff]
  refine forall_congr' fun v => ?_
  have hnothing : Satisfies v ([].map (Formula.pnnf S)) := fun _ h => absurd h List.not_mem_nil
  exact (forall_prop_of_true hnothing).trans beq_iff_eq

/-- **The order of operands has no meaning**, in the formulas that a theory was told and in those it
is asked about.  In a classical theory this is so for the operands of all conjunctions, disjunctions
and equivalences.  In a paraconsistent one the operands of an equivalence that a negation reaches
have to be alike, as they are if they have no inconsistent atoms; of others it can be told in which
order they stand. -/
theorem answersAlike_of_reordered (hs : solver.Decides) :
    (∀ (fs gs : List Formula) (t t' : ClassicalTheory solver), t.Holds fs → t'.Holds gs →
      List.Forall₂ Reordered fs gs → AnswersAlike Reordered t t') ∧
    (∀ (S : List String) (fs gs : List Formula) (t t' : ParaconsistentTheory solver),
      t.Holds fs S → t'.Holds gs S → List.Forall₂ (ReorderedUnder S) fs gs →
        AnswersAlike (ReorderedUnder S) t t') ∧
    (∀ (S : List String) (l r : Formula), (∀ a ∈ l.occurrences, a ∉ S) →
      (∀ a ∈ r.occurrences, a ∉ S) → Alike S l r) ∧
    ∀ (S : List String) (t : ParaconsistentTheory solver), t.Holds [] S → ∀ l r : Formula,
      (GroundLogic.entails (.equiv (.not (.equiv l r)) (.not (.equiv r l))) t).value.1 = true ↔
        Alike S l r := by
  refine ⟨fun fs gs t t' ht ht' h => ?_, fun S fs gs t t' ht ht' h => ?_,
    fun S l r => alike_of_disjoint, fun S t ht => ParaconsistentTheory.entails_exchanged_iff hs ht⟩
  · have heval : ∀ f g, Reordered f g → ∀ v, (id f).eval v = (id g).eval v :=
      fun f g hfg => hfg.eval
    exact (ClassicalTheory.reading hs).answersAlike heval (ht.reads hs) (ht'.reads hs) h
  · have heval : ∀ f g, ReorderedUnder S f g → ∀ v, (f.pnnf S).eval v = (g.pnnf S).eval v :=
      fun f g hfg => hfg.eval_pnnf
    exact (ParaconsistentTheory.reading hs S).answersAlike heval (ht.reads hs) (ht'.reads hs) h

/-- Junctions at two depths and the equivalence under the negation are turned around.  The classical
theory tells that `b` and `c` differ, before and after; the paraconsistent one does not, since `a`
may be false as well. -/
theorem answersAlike_of_reordered_nested :
    let a := atom "a"; let b := atom "b"; let c := atom "c"
    let f := Formula.not (.and [.equiv b c, .or [a, .not a]])
    let g := Formula.not (.and [.or [.not a, a], .equiv c b])
    let u (h : Formula) := GroundLogic.addAll ({} : ClassicalTheory solve) [a, h]
    let t (h : Formula) :=
      (GroundLogic.addAll ({} : ParaconsistentTheory solve) [a, h]).setInconsistent ["a"]
    let x := Formula.not (.equiv b c); let y := Formula.not (.equiv c b)
    solve.Decides ∧ Reordered f g ∧ Reordered x y ∧ ReorderedUnder ["a"] f g ∧
      ReorderedUnder ["a"] x y ∧
      ((u f).Holds [a, f] ∧ (u g).Holds [a, g] ∧ (GroundLogic.entails x (u f)).value.1 = true ∧
        (GroundLogic.entails y (u g)).value.1 = true) ∧
      (t f).Holds [a, f] ["a"] ∧ (t g).Holds [a, g] ["a"] ∧
        (GroundLogic.entails x (t f)).value.1 = false ∧
        (GroundLogic.entails y (t g)).value.1 = false ∧ Alike ["a"] b c := by
  intro a b c f g u t x y
  obtain ⟨hclassical, hparaconsistent, halike, -⟩ := answersAlike_of_reordered solve_decides
  have hbc : Alike ["a"] b c := halike ["a"] b c (by decide) (by decide)
  have hx : ∀ mayExchange : Bool → Formula → Formula → Prop, mayExchange false b c →
      ReorderedWhere mayExchange true x y := fun _ hmay => .not (.exchanged hmay)
  have hf : ∀ mayExchange : Bool → Formula → Formula → Prop, mayExchange false b c →
      ReorderedWhere mayExchange true f g := by
    intro mayExchange hmay
    have hequiv : ReorderedWhere mayExchange false (.and [.equiv b c, .or [a, .not a]])
        (.and [.equiv c b, .or [a, .not a]]) := .operand .and [] _ (.exchanged hmay)
    have hor : ReorderedWhere mayExchange false (.and [.equiv c b, .or [a, .not a]])
        (.and [.equiv c b, .or [.not a, a]]) :=
      .operand .and [.equiv c b] [] (.permuted .or (.swap _ _ _))
    exact .not ((hequiv.trans hor).trans (.permuted .and (.swap _ _ _)))
  have hu : ∀ h, (u h).Holds [a, h] := fun h => .add h (.add a .empty)
  have ht : ∀ h, (t h).Holds [a, h] ["a"] := fun h => ParaconsistentTheory.holds_addAll [a, h] ["a"]
  have huanswers := hclassical [a, f] [a, g] (u f) (u g) (hu f) (hu g)
    (.cons (.refl a) (.cons (hf _ trivial) .nil))
  have htanswers := hparaconsistent ["a"] [a, f] [a, g] (t f) (t g) (ht f) (ht g)
    (.cons (.refl a) (.cons (hf _ (.inr hbc)) .nil))
  have hux : (GroundLogic.entails x (u f)).value.1 = true := by
    dsimp only [u, x, f, a, b, c]
    cbv
  have htx : (GroundLogic.entails x (t f)).value.1 = false := by
    dsimp only [t, x, f, a, b, c]
    cbv
  exact ⟨solve_decides, hf _ trivial, hx _ trivial, hf _ (.inr hbc), hx _ (.inr hbc),
    ⟨hu f, hu g, hux, (huanswers.entails x y (hx _ trivial)).symm.trans hux⟩, ht f, ht g, htx,
    (htanswers.entails x y (hx _ (.inr hbc))).symm.trans htx, hbc⟩

/-- If `a` may be inconsistent and `b` may not, it can be told in which order they stand in a
negated equivalence: where `a` is both true and false and `b` is false, one order makes it true and
the other does not. -/
theorem not_answersAlike_of_reordered :
    let x := Formula.not (.equiv (.atom "a") (.atom "b"))
    let y := Formula.not (.equiv (.atom "b") (.atom "a"))
    let t := ({} : ParaconsistentTheory solve).setInconsistent ["a"]
    t.Holds [] ["a"] ∧ Reordered (.equiv x x) (.equiv x y) ∧
      (GroundLogic.entails (.equiv x x) t).value.1 = true ∧
      (GroundLogic.entails (.equiv x y) t).value.1 = false ∧ ¬AnswersAlike Reordered t t := by
  intro x y t
  have hreordered : Reordered (.equiv x x) (.equiv x y) :=
    .arrow .equivalence (.refl x) (.not (.exchanged trivial))
  have hsame : (GroundLogic.entails (.equiv x x) t).value.1 = true := by
    dsimp only [t, x]
    cbv
  have hother : (GroundLogic.entails (.equiv x y) t).value.1 = false := by
    dsimp only [t, x, y]
    cbv
  refine ⟨.setInconsistent ["a"] .empty, hreordered, hsame, hother, fun h => ?_⟩
  have hentails := h.entails _ _ hreordered
  rw [hsame, hother] at hentails
  cases hentails

end DefaultLogic
