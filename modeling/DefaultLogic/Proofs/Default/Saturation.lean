import DefaultLogic.Default.Extension
import DefaultLogic.Proofs.Default.Grounded

/-!
# Saturation applies rules while it can

Rules are applied pass after pass, and each pass works with the conclusions of the rules that it
has applied itself.  Saturation breaks off at a rule that may be applied but was not chosen.

* `applyRules_spec`: the rules that a pass applies are grounded after those applied before, and
  those that wait were not applicable when they were tried.
* `saturate_spec`: **saturation finds grounded rules after which either a rule that was not chosen
  applies or no rule does.**
-/

namespace DefaultLogic

namespace DefaultTheory

variable {T : Type} [GroundLogic T] {R : Reading T} {m : Formula → Formula} {facts : List Formula}
  {chosen : List Nat}

/-! ## One rule -/

theorem value_justified_cons (r : Rule × Nat) (rs : List (Rule × Nat)) (t : T) :
    (justified (r :: rs) t).value =
      if (GroundLogic.satisfiable (some r.1.justification) t).value.1 then
        r :: (justified rs (GroundLogic.satisfiable (some r.1.justification) t).value.2).value
      else (justified rs (GroundLogic.satisfiable (some r.1.justification) t).value.2).value := rfl

theorem mem_justified {fs : List Formula} {t : T} (h : R.Reads m fs t) (rs : List (Rule × Nat))
    (r : Rule × Nat) :
    r ∈ (justified rs t).value ↔ r ∈ rs ∧ Consistent (fs.map m) (m r.1.justification) := by
  induction rs generalizing t with
  | nil => exact iff_of_false List.not_mem_nil fun h => List.not_mem_nil h.1
  | cons s rs ih =>
    have hs := R.consistent_iff s.1.justification h
    have hrest := ih (R.afterSatisfiable (some s.1.justification) h)
    rw [value_justified_cons, List.mem_cons]
    split
    · next hb =>
      rw [List.mem_cons, hrest]
      constructor
      · rintro (rfl | ⟨hr, hc⟩)
        · exact ⟨.inl rfl, hs.1 hb⟩
        · exact ⟨.inr hr, hc⟩
      · rintro ⟨rfl | hr, hc⟩
        · exact .inl rfl
        · exact .inr ⟨hr, hc⟩
    · next hb =>
      rw [hrest]
      constructor
      · rintro ⟨hr, hc⟩
        exact ⟨.inr hr, hc⟩
      · rintro ⟨rfl | hr, hc⟩
        · exact absurd (hs.2 hc) hb
        · exact ⟨hr, hc⟩

theorem value_applyRules_cons (r : Rule × Nat) (rs : List (Rule × Nat)) (t : T) :
    (applyRules chosen (r :: rs) t).value =
      let x := (GroundLogic.entails r.1.prerequisite t).value
      if x.1 then
        if r.2 ∈ chosen then
          (applyRules chosen rs (GroundLogic.add x.2 r.1.consequent)).value.map fun p =>
            { p with applied := r.2 :: p.applied }
        else none
      else (applyRules chosen rs x.2).value.map fun p => { p with waiting := r :: p.waiting } := by
  rw [applyRules, applyRulesIn, Logged.value_bind]
  generalize (GroundLogic.entails r.1.prerequisite t).value = x
  rcases x with ⟨_ | _, conclusions⟩
  · rfl
  · show Logged.value (if r.2 ∈ chosen then _ else _) = if r.2 ∈ chosen then _ else _
    exact apply_ite Logged.value _ _ _

/-! ## One pass -/

/-- Rules that were chosen out of `rs` and are grounded after `as`. -/
structure Applied (m : Formula → Formula) (facts : List Formula) (chosen : List Nat)
    (rs as bs : List (Rule × Nat)) : Prop where
  mem : ∀ b ∈ bs, b ∈ rs ∧ b.2 ∈ chosen
  grounded : Grounded m facts (as ++ bs)

/-- After some rules, one that was not chosen applies. -/
def IsBlocked (m : Formula → Formula) (facts : List Formula) (chosen : List Nat)
    (rs as : List (Rule × Nat)) : Prop :=
  ∃ bs, Applied m facts chosen rs as bs ∧
    ∃ r ∈ rs, r.2 ∉ chosen ∧ Applicable m facts (as ++ bs) r.1

/-- What a pass over the rules `rs` comes to: `bs` are applied and the others wait. -/
structure IsPass (R : Reading T) (m : Formula → Formula) (facts : List Formula) (chosen : List Nat)
    (rs as bs : List (Rule × Nat)) (p : Pass T) : Prop extends Applied m facts chosen rs as bs where
  applied : p.applied = bs.map Prod.snd
  reads : R.Reads m (basis facts (as ++ bs)) p.conclusions
  waiting : ∀ r ∈ p.waiting, r ∈ rs
  parted : ∀ r ∈ rs, r ∈ bs ∨ r ∈ p.waiting
  length : bs.length + p.waiting.length = rs.length
  stuck : bs = [] → ∀ r ∈ p.waiting, ¬Applicable m facts as r.1

theorem Applied.nil {rs as : List (Rule × Nat)} (h : Grounded m facts as) :
    Applied m facts chosen rs as [] where
  mem _ hb := absurd hb List.not_mem_nil
  grounded := by
    rw [List.append_nil]
    exact h

theorem Applied.cons {r : Rule × Nat} {rs as bs : List (Rule × Nat)}
    (h : Applied m facts chosen rs (as ++ [r]) bs) (hr : r.2 ∈ chosen) :
    Applied m facts chosen (r :: rs) as (r :: bs) where
  mem b hb := by
    rcases List.mem_cons.1 hb with rfl | hb
    · exact ⟨List.mem_cons_self, hr⟩
    · exact ⟨List.mem_cons_of_mem _ (h.mem b hb).1, (h.mem b hb).2⟩
  grounded := by
    rw [List.append_cons]
    exact h.grounded

theorem Applied.of_subset {rs rs' as bs : List (Rule × Nat)} (h : Applied m facts chosen rs as bs)
    (hsub : rs ⊆ rs') : Applied m facts chosen rs' as bs :=
  ⟨fun b hb => ⟨hsub (h.mem b hb).1, (h.mem b hb).2⟩, h.grounded⟩

theorem IsBlocked.cons {r : Rule × Nat} {rs as : List (Rule × Nat)}
    (h : IsBlocked m facts chosen rs (as ++ [r])) (hr : r.2 ∈ chosen) :
    IsBlocked m facts chosen (r :: rs) as := by
  obtain ⟨bs, hbs, s, hs, hsc, happ⟩ := h
  rw [List.append_assoc] at happ
  exact ⟨r :: bs, hbs.cons hr, s, List.mem_cons_of_mem _ hs, hsc, happ⟩

theorem IsBlocked.of_subset {rs rs' as : List (Rule × Nat)} (h : IsBlocked m facts chosen rs as)
    (hsub : rs ⊆ rs') : IsBlocked m facts chosen rs' as := by
  obtain ⟨bs, hbs, s, hs, hsc, happ⟩ := h
  exact ⟨bs, hbs.of_subset hsub, s, hsub hs, hsc, happ⟩

theorem IsPass.cons {r : Rule × Nat} {rs as bs : List (Rule × Nat)} {p : Pass T}
    (h : IsPass R m facts chosen rs (as ++ [r]) bs p) (hr : r.2 ∈ chosen) :
    IsPass R m facts chosen (r :: rs) as (r :: bs) { p with applied := r.2 :: p.applied } where
  toApplied := h.toApplied.cons hr
  applied := congrArg (r.2 :: ·) h.applied
  reads := by
    rw [List.append_cons]
    exact h.reads
  waiting s hs := List.mem_cons_of_mem _ (h.waiting s hs)
  parted s hs := by
    rcases List.mem_cons.1 hs with rfl | hs
    · exact .inl List.mem_cons_self
    · exact (h.parted s hs).imp_left (List.mem_cons_of_mem _)
  length := by
    have hlength := h.length
    simp only [List.length_cons]
    omega
  stuck hbs := by cases hbs

theorem IsPass.wait {r : Rule × Nat} {rs as bs : List (Rule × Nat)} {p : Pass T}
    (h : IsPass R m facts chosen rs as bs p) (hr : ¬Applicable m facts as r.1) :
    IsPass R m facts chosen (r :: rs) as bs { p with waiting := r :: p.waiting } where
  toApplied := h.toApplied.of_subset (List.subset_cons_self r rs)
  applied := h.applied
  reads := h.reads
  waiting s hs := by
    rcases List.mem_cons.1 hs with rfl | hs
    · exact List.mem_cons_self
    · exact List.mem_cons_of_mem _ (h.waiting s hs)
  parted s hs := by
    rcases List.mem_cons.1 hs with rfl | hs
    · exact .inr List.mem_cons_self
    · exact (h.parted s hs).imp_right (List.mem_cons_of_mem _)
  length := by
    have hlength := h.length
    simp only [List.length_cons]
    omega
  stuck hbs s hs := by
    rcases List.mem_cons.1 hs with rfl | hs
    · exact hr
    · exact h.stuck hbs s hs

/-- A pass is blocked, or applies rules and leaves the others waiting. -/
theorem applyRules_spec (chosen : List Nat) {as : List (Rule × Nat)} {t : T}
    (h : R.Reads m (basis facts as) t) (hg : Grounded m facts as) (rs : List (Rule × Nat)) :
    match (applyRules chosen rs t).value with
    | none => IsBlocked m facts chosen rs as
    | some p => ∃ bs, IsPass R m facts chosen rs as bs p := by
  induction rs generalizing as t with
  | nil =>
    have hread : R.Reads m (basis facts (as ++ [])) t := by
      rw [List.append_nil]
      exact h
    exact ⟨[], ⟨.nil hg, rfl, hread, fun _ hr => hr, fun _ hr => absurd hr List.not_mem_nil, rfl,
      fun _ _ hr => absurd hr List.not_mem_nil⟩⟩
  | cons r rs ih =>
    have hent := R.entails_iff r.1.prerequisite h
    have hafter := R.afterEntails r.1.prerequisite h
    rw [value_applyRules_cons]
    dsimp only
    generalize (GroundLogic.entails r.1.prerequisite t).value = x at hent hafter ⊢
    by_cases hx : x.1 = true
    · have happ : Applicable m facts as r.1 := hent.1 hx
      rw [if_pos hx]
      by_cases hr : r.2 ∈ chosen
      · have hread : R.Reads m (basis facts (as ++ [r])) (GroundLogic.add x.2 r.1.consequent) := by
          rw [basis_append]
          exact R.add r.1.consequent hafter
        have hrest := ih hread (hg.snoc happ)
        rw [if_pos hr]
        cases hv : (applyRules chosen rs (GroundLogic.add x.2 r.1.consequent)).value with
        | none =>
          rw [hv] at hrest
          exact hrest.cons hr
        | some p =>
          rw [hv] at hrest
          obtain ⟨bs, hp⟩ := hrest
          exact ⟨r :: bs, hp.cons hr⟩
      · rw [if_neg hr]
        refine ⟨[], .nil hg, r, List.mem_cons_self, hr, ?_⟩
        rw [List.append_nil]
        exact happ
    · have hnot : ¬Applicable m facts as r.1 := fun happ => hx (hent.2 happ)
      have hrest := ih hafter hg
      rw [if_neg hx]
      cases hv : (applyRules chosen rs x.2).value with
      | none =>
        rw [hv] at hrest
        exact hrest.of_subset (List.subset_cons_self r rs)
      | some p =>
        rw [hv] at hrest
        obtain ⟨bs, hp⟩ := hrest
        exact ⟨bs, hp.wait hnot⟩

/-! ## All passes -/

/-- After the rules `bs`, which have the given indices, none of `rs` applies but themselves. -/
def IsComplete (m : Formula → Formula) (facts : List Formula) (chosen : List Nat)
    (rs as : List (Rule × Nat)) (applied : List Nat) : Prop :=
  ∃ bs, Applied m facts chosen rs as bs ∧ applied = bs.map Prod.snd ∧
    ∀ r ∈ rs, Applicable m facts (as ++ bs) r.1 → r ∈ bs

theorem Applied.append {rs ws as bs cs : List (Rule × Nat)}
    (hbs : Applied m facts chosen rs as bs) (hws : ws ⊆ rs)
    (hcs : Applied m facts chosen ws (as ++ bs) cs) : Applied m facts chosen rs as (bs ++ cs) where
  mem b hb := by
    rcases List.mem_append.1 hb with hb | hb
    · exact hbs.mem b hb
    · exact (hcs.of_subset hws).mem b hb
  grounded := by
    rw [← List.append_assoc]
    exact hcs.grounded

theorem IsPass.isBlocked {rs as bs : List (Rule × Nat)} {p : Pass T}
    (hp : IsPass R m facts chosen rs as bs p)
    (h : IsBlocked m facts chosen p.waiting (as ++ bs)) : IsBlocked m facts chosen rs as := by
  obtain ⟨cs, hcs, r, hr, hrc, happ⟩ := h
  rw [List.append_assoc] at happ
  exact ⟨bs ++ cs, hp.toApplied.append hp.waiting hcs, r, hp.waiting r hr, hrc, happ⟩

theorem IsPass.isComplete {rs as bs : List (Rule × Nat)} {p : Pass T} {applied : List Nat}
    (hp : IsPass R m facts chosen rs as bs p)
    (h : IsComplete m facts chosen p.waiting (as ++ bs) applied) :
    IsComplete m facts chosen rs as (p.applied ++ applied) := by
  obtain ⟨cs, hcs, rfl, hall⟩ := h
  refine ⟨bs ++ cs, hp.toApplied.append hp.waiting hcs, ?_, ?_⟩
  · rw [List.map_append, ← hp.applied]
  · intro r hr happ
    rw [← List.append_assoc] at happ
    rcases hp.parted r hr with hrb | hrw
    · exact List.mem_append_left _ hrb
    · exact List.mem_append_right _ (hall r hrw happ)

/-- A pass after which no rule waits, or that leaves all of them waiting, is the last one. -/
theorem IsPass.isComplete_of_last {rs as bs : List (Rule × Nat)} {p : Pass T}
    (hp : IsPass R m facts chosen rs as bs p)
    (hlast : ¬(p.waiting ≠ [] ∧ p.waiting.length < rs.length)) :
    IsComplete m facts chosen rs as p.applied := by
  refine ⟨bs, hp.toApplied, hp.applied, ?_⟩
  intro r hr happ
  rcases hp.parted r hr with hrb | hrw
  · exact hrb
  · -- A rule waits, so no rule was applied and it was tried on what is known in the end.
    have hne : p.waiting ≠ [] := List.ne_nil_of_mem hrw
    have hlength := hp.length
    have hbs : bs = [] := by
      rcases Nat.eq_zero_or_pos bs.length with hzero | hpos
      · exact List.eq_nil_of_length_eq_zero hzero
      · exact absurd ⟨hne, by omega⟩ hlast
    rw [hbs, List.append_nil] at happ
    exact absurd happ (hp.stuck hbs r hrw)

/-- **Saturation ends blocked or complete.** -/
theorem saturate_spec (chosen : List Nat) {as : List (Rule × Nat)} {t : T}
    (h : R.Reads m (basis facts as) t) (hg : Grounded m facts as) (rs : List (Rule × Nat)) :
    match (saturate chosen rs t).value with
    | none => IsBlocked m facts chosen rs as
    | some applied => IsComplete m facts chosen rs as applied := by
  induction hn : rs.length using Nat.strongRecOn generalizing rs as t with
  | ind n ih =>
    have hpass := applyRules_spec chosen h hg rs
    rw [saturate, saturateIn, Logged.value_bind]
    cases hv : (applyRules chosen rs t).value with
    | none =>
      rw [hv] at hpass
      exact hpass
    | some p =>
      rw [hv] at hpass
      obtain ⟨bs, hp⟩ := hpass
      dsimp only
      by_cases hmore : p.waiting ≠ [] ∧ p.waiting.length < rs.length
      · -- Some rule was applied and some wait: the next pass is over those.
        have hrest := ih p.waiting.length (hn ▸ hmore.2) hp.reads hp.grounded p.waiting rfl
        rw [if_pos hmore, Logged.value_bind]
        cases hw : (saturate chosen p.waiting p.conclusions).value with
        | none =>
          rw [hw] at hrest
          exact hp.isBlocked hrest
        | some applied =>
          rw [hw] at hrest
          exact hp.isComplete hrest
      · rw [if_neg hmore]
        exact hp.isComplete_of_last hmore

theorem saturate_facts (chosen : List Nat) {t : T} (h : R.Reads m facts t)
    (rs : List (Rule × Nat)) :
    match (saturate chosen rs t).value with
    | none => IsBlocked m facts chosen rs []
    | some applied => IsComplete m facts chosen rs [] applied := by
  have hbasis : R.Reads m (basis facts []) t := by
    rw [basis, List.map_nil, List.append_nil]
    exact h
  exact saturate_spec chosen hbasis .nil rs

end DefaultTheory

end DefaultLogic
