import DefaultLogic.Proofs.Dialect.Reading
import DefaultLogic.Proofs.Dialect.Token
import Mathlib

/-!
# Reading follows the grammar

The reader knows strengths of binding and the junction of an open chain, the grammar levels.  An
expression within a bound is of a level that the bound admits, and a level tells which operators may
still follow.

* `takes_of_reads`: what is read is derived from the lexemes taken, at an admitted level.
* `Derives.reads`: what is derived is read, as far as what follows lets the level end.
* `parse_eq_ok_iff`: **a text is read exactly when it splits into tokens from which a statement is
  derived, and tokens and statement are unique.**
-/

namespace DefaultLogic

open DefaultLogic.Parser

/-! ## Levels and bounds -/

namespace Strength

/-- The most that the next operator may bind after an operand of this level. -/
def follow : Strength → Nat
  | .primary | .chain _ => junctionStrength
  | .equivalence => arrowStrength
  | .implication => arrowStrength - 1

/-- The junction of an open chain. -/
def last? : Strength → Option Junction
  | .chain last? => last?
  | _ => none

/-- Whether operators above the bound make an operand of this level. -/
def Admitted (bound : Nat) : Strength → Prop
  | .primary => True
  | .chain _ => bound < junctionStrength
  | .equivalence | .implication => bound < arrowStrength

theorem eq_primary {bound : Nat} {σ : Strength} (h : σ.Admitted bound)
    (hbound : junctionStrength ≤ bound) : σ = .primary := by
  cases σ with
  | primary => rfl
  | chain => exact absurd h (Nat.not_lt.2 hbound)
  | equivalence | implication =>
    exact absurd h (Nat.not_lt.2 (Nat.le_trans (by decide) hbound))

end Strength

theorem arrowStrength_le : arrowStrength ≤ junctionStrength := by decide

theorem nextStrength_le (ls : List Lexeme) : nextStrength ls ≤ junctionStrength := by
  cases ls with
  | nil => exact Nat.zero_le _
  | cons l ls =>
    show l.token.strength ≤ junctionStrength
    cases l.token with
    | connective c =>
      cases c with
      | not => exact Nat.zero_le _
      | junction j => exact Nat.le_refl junctionStrength
      | arrow a => exact arrowStrength_le
    | colon => decide
    | atom | opening | closing | slash => exact Nat.zero_le _

namespace Derives

variable {σ : Strength} {ts : List Token} {f : Formula}

theorem toChain (h : Derives σ ts f) (hσ : junctionStrength ≤ σ.follow) :
    Derives (.chain σ.last?) ts f := by
  cases σ with
  | primary => exact .single h
  | chain => exact h
  | equivalence | implication => exact absurd hσ (by decide)

theorem toEquivalence (h : Derives σ ts f) (hσ : arrowStrength ≤ σ.follow) :
    Derives .equivalence ts f := by
  cases σ with
  | primary => exact .chain (.single h)
  | chain => exact .chain h
  | equivalence => exact h
  | implication => exact absurd hσ (by decide)

theorem toImplication (h : Derives σ ts f) : Derives .implication ts f := by
  cases σ with
  | implication => exact h
  | primary | chain => exact .equivalence (h.toEquivalence arrowStrength_le)
  | equivalence => exact .equivalence h

theorem arrow {us : List Token} {g : Formula} (a : Arrow) {τ : Strength}
    (hf : Derives .equivalence ts f) (hg : Derives τ us g) (hτ : τ.Admitted a.rightBound) :
    ∃ ρ : Strength, ρ.follow = a.rightBound ∧ ρ.last? = none ∧
      Derives ρ (ts ++ .connective (.arrow a) :: us) (.arrow a f g) ∧
      ∀ bound < arrowStrength, ρ.Admitted bound := by
  cases a with
  | material => exact ⟨.implication, rfl, rfl, .imply hf hg.toImplication, fun _ h => h⟩
  | internal => exact ⟨.implication, rfl, rfl, .implication hf hg.toImplication, fun _ h => h⟩
  | equivalence =>
    have hchain : junctionStrength ≤ τ.follow := by
      cases τ with
      | primary | chain => exact Nat.le_refl junctionStrength
      | equivalence | implication => exact absurd hτ (Nat.lt_irrefl _)
    exact ⟨.equivalence, rfl, rfl, .equivalent hf (hg.toChain hchain), fun _ h => h⟩

end Derives

/-! ## What is read is derived -/

namespace Parser

variable {d : Dialect} {stop : Stop} {bound : Nat} {ls rest : List Lexeme} {s : Statement}

/-- A rule is no operand, so reading stops after it. -/
theorem goesOn_rule {r : Rule} {chain? : Option Junction} :
    GoesOn d stop bound (.rule r) chain? ls s rest ↔
      nextStrength ls ≤ bound ∧ s = .rule r ∧ rest = ls := by
  by_cases hle : nextStrength ls ≤ bound
  · rw [goesOn_of_le hle, and_iff_right hle]
  · refine iff_of_false (fun h => ?_) fun h => hle h.1
    cases ls with
    | nil => exact hle (Nat.zero_le bound)
    | cons l ls =>
      have hlt : bound < l.token.strength := Nat.lt_of_not_le hle
      rcases strength_pos (Nat.zero_lt_of_lt hlt) with ⟨j, hl⟩ | ⟨a, hl⟩ | hl
      · rw [hl] at hlt
        obtain ⟨-, f, g, ls₁, heq, -⟩ := (goesOn_junction hl hlt).1 h
        cases heq
      · rw [hl] at hlt
        obtain ⟨-, f, g, ls₁, heq, -⟩ := (goesOn_arrow hl hlt).1 h
        cases heq
      · rw [hl] at hlt
        obtain ⟨-, f, g, k, l', ls₁, ls₂, heq, -⟩ := (goesOn_colon hl hlt).1 h
        cases heq

/-- What tokens say within a bound: a formula of an admitted level, or a rule. -/
def Says (bound : Nat) (ts : List Token) : Statement → Prop
  | .formula f => ∃ σ : Strength, σ.Admitted bound ∧ Derives σ ts f
  | .rule r => DerivesStatement ts (.rule r)

/-- The lexemes before `rest` say `s`, and what follows does not belong to them. -/
def Takes (stop : Stop) (bound : Nat) (before : List Token) (ls : List Lexeme) (s : Statement)
    (rest : List Lexeme) : Prop :=
  ∃ used, ls = used ++ rest ∧ stop.check rest = .ok () ∧ nextStrength rest ≤ bound ∧
    Says bound (before ++ used.map Lexeme.token) s

theorem Takes.after {before : List Token} (used : List Lexeme)
    (h : Takes stop bound (before ++ used.map Lexeme.token) ls s rest) :
    Takes stop bound before (used ++ ls) s rest := by
  obtain ⟨used', rfl, hcheck, hnext, htells⟩ := h
  refine ⟨used ++ used', (List.append_assoc ..).symm, hcheck, hnext, ?_⟩
  rwa [List.map_append, ← List.append_assoc]

theorem says_brackets {b : Bracket} {ts : List Token} (h : Says bound ts s) :
    Says junctionStrength (.opening b :: (ts ++ [.closing b])) s := by
  cases s with
  | formula f =>
    obtain ⟨σ, -, hf⟩ := h
    exact ⟨.primary, trivial, .brackets b hf.toImplication⟩
  | rule r => exact .brackets b h

mutual

theorem takes_of_reads {bound : Nat} {ls rest : List Lexeme} {s : Statement}
    (h : Reads d stop bound ls s rest) : Takes stop bound [] ls s rest := by
  cases ls with
  | nil => exact absurd h not_reads_nil
  | cons l ls =>
    obtain ⟨hcheck, left, ls₁, hprimary, hgoes⟩ := reads_cons.1 h
    have hfirst : ∃ used, ls = used ++ ls₁ ∧ stop.check ls₁ = .ok () ∧
        Says junctionStrength (l.token :: used.map Lexeme.token) left := by
      rcases hprimary.starts with ⟨name, hl⟩ | hl | ⟨b, hl⟩
      · obtain ⟨rfl, rfl⟩ := (readsPrimary_atom hl).1 hprimary
        exact ⟨[], rfl, hcheck, .primary, trivial, hl ▸ .atom name⟩
      · obtain ⟨f, hf, rfl⟩ := (readsPrimary_not hl).1 hprimary
        obtain ⟨used, rfl, hcheck₁, -, σ, hσ, hf⟩ := takes_of_reads hf
        obtain rfl := Strength.eq_primary hσ (by decide)
        exact ⟨used, rfl, hcheck₁, .primary, trivial, hl ▸ .not hf⟩
      · obtain ⟨l', hl', hinner, hcheck₁⟩ := (readsPrimary_opening hl).1 hprimary
        obtain ⟨used, rfl, -, -, htells⟩ := takes_of_reads hinner
        refine ⟨used ++ [l'], List.append_cons .., hcheck₁, ?_⟩
        rw [List.map_append, List.map_singleton, hl, hl']
        exact says_brackets htells
    obtain ⟨used, rfl, hcheck₁, htells⟩ := hfirst
    cases left with
    | formula f =>
      obtain ⟨σ, hσ, hf⟩ := htells
      obtain rfl := Strength.eq_primary hσ (Nat.le_refl _)
      have htakes : Takes stop bound (l.token :: used.map Lexeme.token) ls₁ s rest :=
        takes_of_goesOn (σ := .primary) hgoes hcheck₁ hf trivial (nextStrength_le ls₁)
      exact Takes.after (l :: used) htakes
    | rule r =>
      obtain ⟨hle, rfl, rfl⟩ := goesOn_rule.1 hgoes
      exact ⟨l :: used, rfl, hcheck₁, hle, htells⟩
termination_by ls.length

theorem takes_of_goesOn {bound : Nat} {ls rest : List Lexeme} {s : Statement} {σ : Strength}
    {before : List Token} {f : Formula}
    (h : GoesOn d stop bound (.formula f) σ.last? ls s rest) (hcheck : stop.check ls = .ok ())
    (hf : Derives σ before f) (hσ : σ.Admitted bound) (hnext : nextStrength ls ≤ σ.follow) :
    Takes stop bound before ls s rest := by
  by_cases hle : nextStrength ls ≤ bound
  · obtain ⟨rfl, rfl⟩ := (goesOn_of_le hle).1 h
    refine ⟨[], rfl, hcheck, hle, σ, hσ, ?_⟩
    rwa [List.map_nil, List.append_nil]
  · cases ls with
    | nil => exact absurd (Nat.zero_le bound) hle
    | cons l ls =>
      have hlt : bound < l.token.strength := Nat.lt_of_not_le hle
      replace hnext : l.token.strength ≤ σ.follow := hnext
      rcases strength_pos (Nat.zero_lt_of_lt hlt) with ⟨j, hl⟩ | ⟨a, hl⟩ | hl
      · rw [hl] at hlt hnext
        obtain ⟨-, _, g, ls₁, heq, hright, hgoes⟩ := (goesOn_junction hl hlt).1 h
        cases heq
        obtain ⟨used, rfl, hcheck₁, -, τ, hτ, hg⟩ := takes_of_reads hright
        obtain rfl := Strength.eq_primary hτ (Nat.le_refl _)
        have hchain := Derives.link j (hf.toChain hnext) hg
        rw [← hl] at hchain
        exact Takes.after (l :: used)
          (takes_of_goesOn (σ := .chain (some j)) hgoes hcheck₁ hchain hlt (nextStrength_le ls₁))
      · rw [hl] at hlt hnext
        obtain ⟨-, _, g, ls₁, heq, hright, hgoes⟩ := (goesOn_arrow hl hlt).1 h
        cases heq
        obtain ⟨used, rfl, hcheck₁, hnext₁, τ, hτ, hg⟩ := takes_of_reads hright
        obtain ⟨ρ, hfollow, hlast, harrow, hρ⟩ := (hf.toEquivalence hnext).arrow a hg hτ
        rw [← hl] at harrow
        exact Takes.after (l :: used) (takes_of_goesOn (hlast ▸ hgoes) hcheck₁ harrow (hρ bound hlt)
          (hfollow ▸ hnext₁))
      · rw [hl] at hlt
        obtain ⟨-, _, g, k, l', ls₁, ls₂, heq, hjus, hl', -, hcons, hgoes⟩ :=
          (goesOn_colon hl hlt).1 h
        cases heq
        obtain ⟨used, rfl, -, -, τ, -, hg⟩ := takes_of_reads hjus
        obtain ⟨used', rfl, hcheck₂, -, τ', -, hk⟩ := takes_of_reads hcons
        obtain ⟨hle, rfl, rfl⟩ := goesOn_rule.1 hgoes
        have hrule := DerivesStatement.rule hf.toImplication hg.toImplication hk.toImplication
        rw [← hl, ← hl'] at hrule
        refine ⟨l :: (used ++ l' :: used'), ?_, hcheck₂, hle, ?_⟩
        · rw [List.cons_append, List.append_assoc, List.cons_append]
        · rw [List.map_cons, List.map_append, List.map_cons, ← List.cons_append,
            ← List.append_assoc]
          exact hrule
termination_by ls.length

end

/-! ## What is derived is read -/

theorem goesOn_congr {left : Statement} {chain? chain?' : Option Junction}
    (hnext : nextStrength ls ≤ arrowStrength)
    (h : GoesOn d stop bound left chain? ls s rest) :
    GoesOn d stop bound left chain?' ls s rest := by
  by_cases hle : nextStrength ls ≤ bound
  · rw [goesOn_of_le hle] at h ⊢
    exact h
  · cases ls with
    | nil => exact absurd (Nat.zero_le bound) hle
    | cons l ls =>
      have hlt : bound < l.token.strength := Nat.lt_of_not_le hle
      replace hnext : l.token.strength ≤ arrowStrength := hnext
      rcases strength_pos (Nat.zero_lt_of_lt hlt) with ⟨j, hl⟩ | ⟨a, hl⟩ | hl
      · rw [hl] at hnext
        exact absurd hnext (by decide : ¬junctionStrength ≤ arrowStrength)
      · rw [hl] at hlt
        rw [goesOn_arrow hl hlt] at h ⊢
        exact h
      · rw [hl] at hlt
        rw [goesOn_colon hl hlt] at h ⊢
        exact h

end Parser

variable {d : Dialect} {last : Mark}

theorem Stop.check_complete (m : Mark) (ls : List Lexeme) :
    (Stop.complete m).check ls = .ok () := by
  cases ls <;> rfl

theorem exists_of_map_token {ls : List Lexeme} {ts us : List Token} {t : Token}
    (h : ls.map Lexeme.token = ts ++ t :: us) : ∃ ls₁ l ls₂, ls = ls₁ ++ l :: ls₂ ∧
      ls₁.map Lexeme.token = ts ∧ l.token = t ∧ ls₂.map Lexeme.token = us := by
  obtain ⟨ls₁, ls', rfl, h₁, h'⟩ := List.map_eq_append_iff.1 h
  obtain ⟨l, ls₂, rfl, hl, h₂⟩ := List.map_eq_cons_iff.1 h'
  exact ⟨ls₁, l, ls₂, rfl, h₁, hl, h₂⟩

theorem reads_brackets {b : Bracket} {ts : List Token} {ls rest out : List Lexeme} {bound : Nat}
    {left s : Statement} (hls : ls.map Lexeme.token = .opening b :: (ts ++ [.closing b]))
    (hinner : ∀ ls l', ls.map Lexeme.token = ts → nextStrength (l' :: rest) = 0 →
      Reads d (.complete last) 0 (ls ++ l' :: rest) left (l' :: rest))
    (hgoes : GoesOn d (.complete last) bound left none rest s out) :
    Reads d (.complete last) bound (ls ++ rest) s out := by
  obtain ⟨l, ls, rfl, hl, hls⟩ := List.map_eq_cons_iff.1 hls
  obtain ⟨ls, l', after, rfl, hls', hl', hnil⟩ := exists_of_map_token hls
  obtain rfl := List.map_eq_nil_iff.1 hnil
  have hclosing : nextStrength (l' :: rest) = 0 := by
    rw [nextStrength, hl']
    rfl
  rw [List.cons_append, List.append_assoc, List.singleton_append]
  exact reads_cons.2 ⟨Stop.check_complete _ _, _, rest,
    (readsPrimary_opening hl).2 ⟨l', hl', hinner ls l' hls' hclosing, Stop.check_complete _ _⟩,
    hgoes⟩

/-- **What is derived is read**, and reading goes on from it, if what follows lets its level end. -/
theorem Derives.reads {σ : Strength} {ts : List Token} {f : Formula} (h : Derives σ ts f)
    {ls rest out : List Lexeme} {bound : Nat} {s : Statement} (hls : ls.map Lexeme.token = ts)
    (hσ : σ.Admitted bound) (hnext : nextStrength rest ≤ σ.follow)
    (hgoes : GoesOn d (.complete last) bound (.formula f) σ.last? rest s out) :
    Reads d (.complete last) bound (ls ++ rest) s out := by
  induction h generalizing ls rest out bound s with
  | atom name =>
    obtain ⟨l, rfl, hl⟩ := List.map_eq_singleton_iff.1 hls
    exact reads_cons.2
      ⟨Stop.check_complete _ _, _, rest, (readsPrimary_atom hl).2 ⟨rfl, rfl⟩, hgoes⟩
  | not h ih =>
    obtain ⟨l, ls, rfl, hl, hls⟩ := List.map_eq_cons_iff.1 hls
    have hoperand : Reads d (.complete last) notStrength (ls ++ rest) (.formula _) rest :=
      ih hls trivial hnext ((goesOn_of_le (Nat.le_trans hnext (by decide))).2 ⟨rfl, rfl⟩)
    exact reads_cons.2 ⟨Stop.check_complete _ _, _, rest,
      (readsPrimary_not hl).2 ⟨_, hoperand, rfl⟩, hgoes⟩
  | brackets b h ih =>
    refine reads_brackets hls (fun ls l' hls' hclosing => ?_) hgoes
    exact ih hls' (by decide : 0 < arrowStrength) (hclosing ▸ Nat.zero_le _)
      ((goesOn_of_le (Nat.le_of_eq hclosing)).2 ⟨rfl, rfl⟩)
  | single h ih => exact ih hls trivial hnext hgoes
  | link j hf hg ihf ihg =>
    obtain ⟨ls₁, l, ls₂, rfl, h₁, hl, h₂⟩ := exists_of_map_token hls
    have hoperand : Reads d (.complete last) junctionStrength (ls₂ ++ rest) (.formula _) rest :=
      ihg h₂ trivial hnext ((goesOn_of_le hnext).2 ⟨rfl, rfl⟩)
    rw [List.append_assoc, List.cons_append]
    exact ihf h₁ hσ (nextStrength_le _)
      ((goesOn_junction hl hσ).2 ⟨Stop.check_complete _ _, _, _, rest, rfl, hoperand, hgoes⟩)
  | chain h ih =>
    exact ih hls (Nat.lt_of_lt_of_le hσ arrowStrength_le) (Nat.le_trans hnext arrowStrength_le)
      (goesOn_congr hnext hgoes)
  | equivalent hf hg ihf ihg =>
    obtain ⟨ls₁, l, ls₂, rfl, h₁, hl, h₂⟩ := exists_of_map_token hls
    have hoperand : Reads d (.complete last) arrowStrength (ls₂ ++ rest) (.formula _) rest :=
      ihg h₂ (by decide : arrowStrength < junctionStrength) (Nat.le_trans hnext arrowStrength_le)
        ((goesOn_of_le hnext).2 ⟨rfl, rfl⟩)
    rw [List.append_assoc, List.cons_append]
    refine ihf h₁ hσ (by rw [nextStrength, hl]; exact Nat.le_refl _) ?_
    exact (goesOn_arrow hl hσ).2 ⟨Stop.check_complete _ _, _, _, rest, rfl, hoperand, hgoes⟩
  | equivalence h ih => exact ih hls hσ (Nat.le_trans hnext (by decide)) hgoes
  | imply hf hg ihf ihg | implication hf hg ihf ihg =>
    obtain ⟨ls₁, l, ls₂, rfl, h₁, hl, h₂⟩ := exists_of_map_token hls
    have hoperand : Reads d (.complete last) (arrowStrength - 1) (ls₂ ++ rest) (.formula _) rest :=
      ihg h₂ (by decide : arrowStrength - 1 < arrowStrength) hnext
        ((goesOn_of_le hnext).2 ⟨rfl, rfl⟩)
    rw [List.append_assoc, List.cons_append]
    refine ihf h₁ hσ (by rw [nextStrength, hl]; exact Nat.le_refl _) ?_
    exact (goesOn_arrow hl hσ).2 ⟨Stop.check_complete _ _, _, _, rest, rfl, hoperand, hgoes⟩

theorem Derives.reads_operand {ts : List Token} {f : Formula} (h : Derives .implication ts f)
    {ls rest : List Lexeme} (hls : ls.map Lexeme.token = ts)
    (hnext : nextStrength rest ≤ colonStrength) :
    Reads d (.complete last) colonStrength (ls ++ rest) (.formula f) rest :=
  h.reads hls (by decide : colonStrength < arrowStrength) (Nat.le_trans hnext (by decide))
    ((goesOn_of_le hnext).2 ⟨rfl, rfl⟩)

theorem DerivesStatement.reads {ts : List Token} {s : Statement} (h : DerivesStatement ts s)
    {ls rest : List Lexeme} (hls : ls.map Lexeme.token = ts) (hnext : nextStrength rest ≤ 0) :
    Reads d (.complete last) 0 (ls ++ rest) s rest := by
  induction h generalizing ls rest with
  | formula h =>
    exact h.reads hls (by decide : 0 < arrowStrength) (Nat.le_trans hnext (Nat.zero_le _))
      ((goesOn_of_le hnext).2 ⟨rfl, rfl⟩)
  | rule hf hg hk =>
    obtain ⟨ls', l', ls₃, rfl, hls', hl', h₃⟩ := exists_of_map_token hls
    obtain ⟨ls₁, l, ls₂, rfl, h₁, hl, h₂⟩ := exists_of_map_token hls'
    have hslash : nextStrength (l' :: (ls₃ ++ rest)) = 0 := by
      rw [nextStrength, hl']
      rfl
    have hcolon : nextStrength (l :: (ls₂ ++ l' :: (ls₃ ++ rest))) = colonStrength := by
      rw [nextStrength, hl]
      rfl
    have hjus : Reads d (.complete last) colonStrength (ls₂ ++ l' :: (ls₃ ++ rest)) (.formula _)
        (l' :: (ls₃ ++ rest)) :=
      hg.reads_operand h₂ (hslash ▸ Nat.zero_le colonStrength)
    have hcons : Reads d (.complete last) colonStrength (ls₃ ++ rest) (.formula _) rest :=
      hk.reads_operand h₃ (Nat.le_trans hnext (Nat.zero_le colonStrength))
    rw [List.append_assoc, List.append_assoc, List.cons_append, List.cons_append]
    refine hf.reads h₁ (by decide : 0 < arrowStrength) (hcolon ▸ (by decide)) ?_
    exact (goesOn_colon hl (by decide)).2 ⟨Stop.check_complete _ _, _, _, _, l', _, rest, rfl, hjus,
      hl', Stop.check_complete _ _, hcons, goesOn_rule.2 ⟨hnext, rfl, rfl⟩⟩
  | brackets b h ih =>
    refine reads_brackets hls (fun ls l' hls' hclosing => ?_) (goesOn_rule.2 ⟨hnext, rfl, rfl⟩)
    exact ih hls' (Nat.le_of_eq hclosing)

/-! ## Texts -/

theorem Parser.Says.derivesStatement {bound : Nat} {ts : List Token} {s : Statement}
    (h : Says bound ts s) : DerivesStatement ts s := by
  cases s with
  | formula f =>
    obtain ⟨σ, -, hf⟩ := h
    exact .formula hf.toImplication
  | rule r => exact h

theorem DerivesStatement.unique {ts : List Token} {s s' : Statement} (h : DerivesStatement ts s)
    (h' : DerivesStatement ts s') : s = s' := by
  let ls : List Lexeme := ts.map fun t => ⟨t, .start ""⟩
  have hls : ls.map Lexeme.token = ts := by
    rw [List.map_map]
    exact List.map_id ts
  obtain ⟨_, hs⟩ : Reads .plainText (.complete (.start "")) 0 (ls ++ []) s [] :=
    h.reads hls (Nat.le_refl 0)
  obtain ⟨_, hs'⟩ : Reads .plainText (.complete (.start "")) 0 (ls ++ []) s' [] :=
    h'.reads hls (Nat.le_refl 0)
  rw [hs] at hs'
  cases hs'
  rfl

namespace Dialect

theorem Split.unique {d : Dialect} {cs : List Char} {ts us : List Token} (h : d.Split cs ts)
    (h' : d.Split cs us) : ts = us := by
  obtain ⟨ls, last, hls, rfl⟩ := (split_iff ⟨0, cs⟩ ts).1 h
  obtain ⟨ls', last', hls', rfl⟩ := (split_iff ⟨0, cs⟩ us).1 h'
  rw [hls] at hls'
  cases hls'
  rfl

theorem parse_eq_ok_iff_reads {d : Dialect} {text : String} {s : Statement} {ls : List Lexeme}
    {stop : Stop} (hlexemes : d.lexemes (.start text) = (ls, stop)) :
    d.parse text = .ok s ↔ stop.check ls = .ok () ∧ Reads d stop 0 ls s [] := by
  rw [parse, hlexemes]
  dsimp only
  split
  · exact iff_of_false (fun h => nomatch h) fun h => not_reads_nil h.2
  · constructor
    · intro h
      obtain ⟨_, hcheck, h⟩ := bind_eq_ok_iff.1 h
      obtain ⟨⟨s', rest, hrest⟩, hexpression, h⟩ := bind_eq_ok_iff.1 h
      cases rest with
      | nil =>
        cases h
        exact ⟨hcheck, hrest, hexpression⟩
      | cons l rest => cases h
    · rintro ⟨hcheck, hrest, hexpression⟩
      refine bind_eq_ok_iff.2 ⟨_, hcheck, ?_⟩
      exact bind_eq_ok_iff.2 ⟨_, hexpression, rfl⟩

/-- **A text is read exactly when it splits into tokens from which a statement is derived.** -/
theorem parse_eq_ok_iff (d : Dialect) (text : String) (s : Statement) :
    d.parse text = .ok s ↔ ∃ ts, d.Split text.toList ts ∧ DerivesStatement ts s := by
  generalize hlexemes : d.lexemes (.start text) = lexemes
  obtain ⟨ls, stop⟩ := lexemes
  rw [parse_eq_ok_iff_reads hlexemes]
  constructor
  · rintro ⟨-, hreads⟩
    obtain ⟨used, rfl, hcheck, -, htells⟩ := takes_of_reads hreads
    rw [List.append_nil] at hlexemes
    -- The end of the lexemes has been checked, so no character was left over.
    cases stop with
    | unknown m => cases hcheck
    | complete last =>
      exact ⟨_, (split_iff (.start text) _).2 ⟨used, last, hlexemes, rfl⟩, htells.derivesStatement⟩
  · rintro ⟨ts, hsplit, hderives⟩
    obtain ⟨ls', last, hlexemes', hls⟩ := (split_iff (.start text) ts).1 hsplit
    rw [hlexemes] at hlexemes'
    cases hlexemes'
    refine ⟨Stop.check_complete last ls, ?_⟩
    rw [← List.append_nil ls]
    exact hderives.reads hls (Nat.le_refl 0)

/-- **A text is read exactly when it splits into tokens from which a statement is derived**, and
then it splits in no other way, nor is another statement derived from the tokens. -/
theorem parse_derives (d : Dialect) (text : String) (s : Statement) :
    (d.parse text = .ok s ↔ ∃ ts, d.Split text.toList ts ∧ DerivesStatement ts s) ∧
      ∀ ts, d.Split text.toList ts → DerivesStatement ts s →
        (∀ us, d.Split text.toList us → us = ts) ∧ ∀ s', DerivesStatement ts s' → s' = s :=
  ⟨parse_eq_ok_iff d text s, fun _ hsplit hderives =>
    ⟨fun _ h => h.unique hsplit, fun _ h => h.unique hderives⟩⟩

/-- Junctions bind alike and from the left, and only chains of one junction are merged. -/
theorem parse_derives_chain :
    ∃ ts, plainText.Split "a & b | c | d".toList ts ∧
      (∀ us, plainText.Split "a & b | c | d".toList us → us = ts) ∧
      ∀ s, DerivesStatement ts s →
        s = .formula (.or [.and [.atom "a", .atom "b"], .atom "c", .atom "d"]) := by
  have hparse : plainText.parse "a & b | c | d" =
      .ok (.formula (.or [.and [.atom "a", .atom "b"], .atom "c", .atom "d"])) := by
    cbv
  have hderives := parse_derives plainText "a & b | c | d"
    (.formula (.or [.and [.atom "a", .atom "b"], .atom "c", .atom "d"]))
  obtain ⟨ts, hsplit, hts⟩ := hderives.1.1 hparse
  exact ⟨ts, hsplit, hderives.2 ts hsplit hts⟩

end Dialect

end DefaultLogic
