import DefaultLogic.Dialect.Parser

/-!
# What each reader does

Readers return a statement and the lexemes they leave, with a proof that these are fewer.  Here this
is a relation between lists of lexemes, with one lemma for each way in which a reader goes on.

* `reads_cons`: an expression is what its first token starts, and what follows it.
* `readsPrimary_atom`, `readsPrimary_not`, `readsPrimary_opening`: what a token starts.
* `goesOn_of_le`, `goesOn_junction`, `goesOn_arrow`, `goesOn_colon`: **how reading goes on after an
  operand, by the operator that follows.**
-/

namespace DefaultLogic

theorem bind_eq_ok_iff {ε α β : Type} {x : Except ε α} {f : α → Except ε β} {b : β} :
    x >>= f = .ok b ↔ ∃ a, x = .ok a ∧ f a = .ok b := by
  cases x with
  | error e => exact ⟨fun h => (nomatch h), fun ⟨_, h, _⟩ => (nomatch h)⟩
  | ok a =>
    constructor
    · intro h
      exact ⟨a, rfl, h⟩
    · rintro ⟨_, h, hb⟩
      cases h
      exact hb

theorem Statement.operand_eq_ok_iff {m : Mark} {s : Statement} {f : Formula} :
    s.operand m = .ok f ↔ s = .formula f := by
  cases s with
  | formula g => exact ⟨fun h => by cases h; rfl, fun h => by cases h; rfl⟩
  | rule r => exact ⟨fun h => (nomatch h), fun h => (nomatch h)⟩

namespace Stop

theorem expect_eq_ok_iff {d : Dialect} {stop : Stop} {t : Token} {ls rest : List Lexeme} :
    (∃ h, stop.expect d t ls = .ok ⟨rest, h⟩) ↔
      ∃ l, ls = l :: rest ∧ l.token = t ∧ stop.check rest = .ok () := by
  cases ls with
  | nil => exact ⟨fun ⟨_, h⟩ => (nomatch h), fun ⟨_, h, _⟩ => (nomatch h)⟩
  | cons l ls =>
    by_cases ht : l.token = t
    · constructor
      · rintro ⟨_, h⟩
        rw [expect, if_pos ht, bind_eq_ok_iff] at h
        obtain ⟨_, hcheck, h⟩ := h
        cases h
        exact ⟨l, rfl, ht, hcheck⟩
      · rintro ⟨_, h, -, hcheck⟩
        cases h
        refine ⟨Nat.le_succ _, ?_⟩
        rw [expect, if_pos ht, hcheck]
        rfl
    · constructor
      · rintro ⟨_, h⟩
        rw [expect, if_neg ht] at h
        cases h
      · rintro ⟨_, h, ht', -⟩
        cases h
        exact absurd ht' ht

end Stop

namespace Parser

variable (d : Dialect) (stop : Stop)

/-- An expression with operators above the bound is read as `s`, and `rest` is left. -/
def Reads (bound : Nat) (ls : List Lexeme) (s : Statement) (rest : List Lexeme) : Prop :=
  ∃ h, expression d stop bound ls = .ok (s, ⟨rest, h⟩)

/-- What the token `l` starts is read as `s`. -/
def ReadsPrimary (l : Lexeme) (ls : List Lexeme) (s : Statement) (rest : List Lexeme) : Prop :=
  ∃ h, primary d stop l ls = .ok (s, ⟨rest, h⟩)

/-- After `left` reading goes on to `s`. -/
def GoesOn (bound : Nat) (left : Statement) (chain? : Option Junction) (ls : List Lexeme)
    (s : Statement) (rest : List Lexeme) : Prop :=
  ∃ h, climb d stop bound left chain? ls = .ok (s, ⟨rest, h⟩)

variable {d stop} {bound : Nat} {l : Lexeme} {ls rest : List Lexeme} {s left : Statement}
  {chain? : Option Junction}

/-! ## Expressions -/

theorem not_reads_nil : ¬Reads d stop bound [] s rest := by
  rintro ⟨h, -⟩
  cases h

theorem reads_cons : Reads d stop bound (l :: ls) s rest ↔ stop.check ls = .ok () ∧
    ∃ left ls₁, ReadsPrimary d stop l ls left ls₁ ∧ GoesOn d stop bound left none ls₁ s rest := by
  rw [Reads, expression]
  constructor
  · rintro ⟨_, h⟩
    obtain ⟨_, hcheck, h⟩ := bind_eq_ok_iff.1 h
    obtain ⟨⟨left, ls₁, h₁⟩, hprimary, h⟩ := bind_eq_ok_iff.1 h
    obtain ⟨⟨whole, ls₂, h₂⟩, hclimb, h⟩ := bind_eq_ok_iff.1 h
    cases h
    exact ⟨hcheck, left, ls₁, ⟨h₁, hprimary⟩, ⟨h₂, hclimb⟩⟩
  · rintro ⟨hcheck, left, ls₁, ⟨h₁, hprimary⟩, ⟨h₂, hclimb⟩⟩
    refine ⟨Nat.lt_succ_of_le (Nat.le_trans h₂ h₁), ?_⟩
    refine bind_eq_ok_iff.2 ⟨_, hcheck, ?_⟩
    refine bind_eq_ok_iff.2 ⟨_, hprimary, ?_⟩
    exact bind_eq_ok_iff.2 ⟨_, hclimb, rfl⟩

/-! ## What a token starts -/

theorem readsPrimary_atom {name : String} (hl : l.token = .atom name) :
    ReadsPrimary d stop l ls s rest ↔ s = .formula (.atom name) ∧ rest = ls := by
  rw [ReadsPrimary, primary, hl]
  constructor
  · rintro ⟨_, h⟩
    cases h
    exact ⟨rfl, rfl⟩
  · rintro ⟨rfl, rfl⟩
    exact ⟨Nat.le_refl _, rfl⟩

theorem readsPrimary_not (hl : l.token = .connective .not) :
    ReadsPrimary d stop l ls s rest ↔
      ∃ f, Reads d stop notStrength ls (.formula f) rest ∧ s = .formula (.not f) := by
  rw [ReadsPrimary, primary, hl]
  constructor
  · rintro ⟨_, h⟩
    obtain ⟨⟨g, ls₁, h₁⟩, hexpression, h⟩ := bind_eq_ok_iff.1 h
    obtain ⟨f, hf, h⟩ := bind_eq_ok_iff.1 h
    cases h
    obtain rfl := Statement.operand_eq_ok_iff.1 hf
    exact ⟨f, ⟨h₁, hexpression⟩, rfl⟩
  · rintro ⟨f, ⟨h₁, hexpression⟩, rfl⟩
    refine ⟨Nat.le_of_lt h₁, ?_⟩
    exact bind_eq_ok_iff.2 ⟨_, hexpression, rfl⟩

theorem readsPrimary_opening {b : Bracket} (hl : l.token = .opening b) :
    ReadsPrimary d stop l ls s rest ↔ ∃ l', l'.token = .closing b ∧
      Reads d stop 0 ls s (l' :: rest) ∧ stop.check rest = .ok () := by
  rw [ReadsPrimary, primary, hl]
  constructor
  · rintro ⟨_, h⟩
    obtain ⟨⟨inner, ls₁, h₁⟩, hexpression, h⟩ := bind_eq_ok_iff.1 h
    obtain ⟨⟨ls₂, h₂⟩, hexpect, h⟩ := bind_eq_ok_iff.1 h
    cases h
    obtain ⟨l', rfl, hl', hcheck⟩ := Stop.expect_eq_ok_iff.1 ⟨h₂, hexpect⟩
    exact ⟨l', hl', ⟨h₁, hexpression⟩, hcheck⟩
  · rintro ⟨l', hl', ⟨h₁, hexpression⟩, hcheck⟩
    obtain ⟨h₂, hexpect⟩ := Stop.expect_eq_ok_iff.2 ⟨l', rfl, hl', hcheck⟩
    refine ⟨Nat.le_trans h₂ (Nat.le_of_lt h₁), ?_⟩
    refine bind_eq_ok_iff.2 ⟨_, hexpression, ?_⟩
    exact bind_eq_ok_iff.2 ⟨_, hexpect, rfl⟩

theorem ReadsPrimary.starts (h : ReadsPrimary d stop l ls s rest) :
    (∃ name, l.token = .atom name) ∨ l.token = .connective .not ∨ ∃ b, l.token = .opening b := by
  obtain ⟨_, h⟩ := h
  rw [primary] at h
  split at h
  · next name hl => exact .inl ⟨name, hl⟩
  · next hl => exact .inr (.inl hl)
  · next b hl => exact .inr (.inr ⟨b, hl⟩)
  · cases h

/-! ## What follows an operand -/

/-- How tightly the next token binds what stands before it. -/
def nextStrength : List Lexeme → Nat
  | [] => 0
  | l :: _ => l.token.strength

/-- Reading stops before an operator that the bound excludes, and at the end. -/
theorem goesOn_of_le (h : nextStrength ls ≤ bound) :
    GoesOn d stop bound left chain? ls s rest ↔ s = left ∧ rest = ls := by
  have hclimb : climb d stop bound left chain? ls = .ok (left, ⟨ls, Nat.le_refl _⟩) := by
    cases ls with
    | nil => rw [climb]
    | cons l ls =>
      have hstrength : ¬bound < l.token.strength := Nat.not_lt.2 h
      rw [climb, if_neg hstrength]
  rw [GoesOn, hclimb]
  constructor
  · rintro ⟨_, h⟩
    cases h
    exact ⟨rfl, rfl⟩
  · rintro ⟨rfl, rfl⟩
    exact ⟨Nat.le_refl _, rfl⟩

private theorem exists_infix_iff {right : Nat} {join : Formula → Formula → Formula}
    {next? : Option Junction} :
    (∃ h, (do
      stop.check ls
      let f ← left.operand l.mark
      let ⟨g, ⟨ls₁, h₁⟩⟩ ← expression d stop right ls
      let ⟨s, ⟨ls₂, h₂⟩⟩ ← climb d stop bound (.formula (join f (← g.operand l.mark))) next? ls₁
      (.ok (s, ⟨ls₂, Nat.le_succ_of_le (Nat.le_trans h₂ (Nat.le_of_lt h₁))⟩) :
        Except ParseError (Statement × { r : List Lexeme // r.length ≤ (l :: ls).length }))) =
          .ok (s, ⟨rest, h⟩)) ↔
      stop.check ls = .ok () ∧ ∃ f g ls₁, left = .formula f ∧
        Reads d stop right ls (.formula g) ls₁ ∧
        GoesOn d stop bound (.formula (join f g)) next? ls₁ s rest := by
  constructor
  · rintro ⟨_, h⟩
    obtain ⟨_, hcheck, h⟩ := bind_eq_ok_iff.1 h
    obtain ⟨f, hf, h⟩ := bind_eq_ok_iff.1 h
    obtain ⟨⟨g', ls₁, h₁⟩, hexpression, h⟩ := bind_eq_ok_iff.1 h
    obtain ⟨g, hg, h⟩ := bind_eq_ok_iff.1 h
    obtain ⟨⟨s', ls₂, h₂⟩, hclimb, h⟩ := bind_eq_ok_iff.1 h
    cases h
    obtain rfl := Statement.operand_eq_ok_iff.1 hf
    obtain rfl := Statement.operand_eq_ok_iff.1 hg
    exact ⟨hcheck, f, g, ls₁, rfl, ⟨h₁, hexpression⟩, ⟨h₂, hclimb⟩⟩
  · rintro ⟨hcheck, f, g, ls₁, rfl, ⟨h₁, hexpression⟩, ⟨h₂, hclimb⟩⟩
    refine ⟨by rw [List.length_cons]; omega, ?_⟩
    refine bind_eq_ok_iff.2 ⟨_, hcheck, ?_⟩
    refine bind_eq_ok_iff.2 ⟨f, rfl, ?_⟩
    refine bind_eq_ok_iff.2 ⟨_, hexpression, ?_⟩
    refine bind_eq_ok_iff.2 ⟨g, rfl, ?_⟩
    exact bind_eq_ok_iff.2 ⟨_, hclimb, rfl⟩

theorem goesOn_junction {j : Junction} (hl : l.token = .connective (.junction j))
    (hbound : bound < junctionStrength) : GoesOn d stop bound left chain? (l :: ls) s rest ↔
      stop.check ls = .ok () ∧ ∃ f g ls₁, left = .formula f ∧
        Reads d stop junctionStrength ls (.formula g) ls₁ ∧
        GoesOn d stop bound (.formula (f.chain chain? j g)) (some j) ls₁ s rest := by
  have hstrength : bound < l.token.strength := by
    rw [hl]
    exact hbound
  rw [GoesOn, climb, if_pos hstrength, hl]
  exact exists_infix_iff

theorem goesOn_arrow {a : Arrow} (hl : l.token = .connective (.arrow a))
    (hbound : bound < arrowStrength) : GoesOn d stop bound left chain? (l :: ls) s rest ↔
      stop.check ls = .ok () ∧ ∃ f g ls₁, left = .formula f ∧
        Reads d stop a.rightBound ls (.formula g) ls₁ ∧
        GoesOn d stop bound (.formula (.arrow a f g)) none ls₁ s rest := by
  have hstrength : bound < l.token.strength := by
    rw [hl]
    exact hbound
  rw [GoesOn, climb, if_pos hstrength, hl]
  exact exists_infix_iff

theorem goesOn_colon (hl : l.token = .colon) (hbound : bound < colonStrength) :
    GoesOn d stop bound left chain? (l :: ls) s rest ↔
      stop.check ls = .ok () ∧ ∃ f g h l' ls₁ ls₂, left = .formula f ∧
        Reads d stop colonStrength ls (.formula g) (l' :: ls₁) ∧ l'.token = .slash ∧
        stop.check ls₁ = .ok () ∧ Reads d stop colonStrength ls₁ (.formula h) ls₂ ∧
        GoesOn d stop bound (.rule ⟨f, g, h⟩) none ls₂ s rest := by
  have hstrength : bound < l.token.strength := by
    rw [hl]
    exact hbound
  rw [GoesOn, climb, if_pos hstrength, hl]
  constructor
  · rintro ⟨_, h⟩
    obtain ⟨_, hcheck, h⟩ := bind_eq_ok_iff.1 h
    obtain ⟨f, hf, h⟩ := bind_eq_ok_iff.1 h
    obtain ⟨⟨g', ls₁, h₁⟩, hjustification, h⟩ := bind_eq_ok_iff.1 h
    obtain ⟨g, hg, h⟩ := bind_eq_ok_iff.1 h
    obtain ⟨⟨ls₂, h₂⟩, hexpect, h⟩ := bind_eq_ok_iff.1 h
    obtain ⟨⟨k', ls₃, h₃⟩, hconsequent, h⟩ := bind_eq_ok_iff.1 h
    obtain ⟨k, hk, h⟩ := bind_eq_ok_iff.1 h
    obtain ⟨⟨s', ls₄, h₄⟩, hclimb, h⟩ := bind_eq_ok_iff.1 h
    cases h
    obtain rfl := Statement.operand_eq_ok_iff.1 hf
    obtain rfl := Statement.operand_eq_ok_iff.1 hg
    obtain rfl := Statement.operand_eq_ok_iff.1 hk
    obtain ⟨l', rfl, hl', hcheck'⟩ := Stop.expect_eq_ok_iff.1 ⟨h₂, hexpect⟩
    exact ⟨hcheck, f, g, k, l', ls₂, ls₃, rfl, ⟨h₁, hjustification⟩, hl', hcheck',
      ⟨h₃, hconsequent⟩, ⟨h₄, hclimb⟩⟩
  · rintro ⟨hcheck, f, g, k, l', ls₁, ls₂, rfl, ⟨h₁, hjustification⟩, hl', hcheck',
      ⟨h₃, hconsequent⟩, ⟨h₄, hclimb⟩⟩
    obtain ⟨h₂, hexpect⟩ := Stop.expect_eq_ok_iff.2 ⟨l', rfl, hl', hcheck'⟩
    rw [List.length_cons] at h₁
    refine ⟨by rw [List.length_cons]; omega, ?_⟩
    refine bind_eq_ok_iff.2 ⟨_, hcheck, ?_⟩
    refine bind_eq_ok_iff.2 ⟨f, rfl, ?_⟩
    refine bind_eq_ok_iff.2 ⟨_, hjustification, ?_⟩
    refine bind_eq_ok_iff.2 ⟨g, rfl, ?_⟩
    refine bind_eq_ok_iff.2 ⟨_, hexpect, ?_⟩
    refine bind_eq_ok_iff.2 ⟨_, hconsequent, ?_⟩
    refine bind_eq_ok_iff.2 ⟨k, rfl, ?_⟩
    exact bind_eq_ok_iff.2 ⟨_, hclimb, rfl⟩

theorem strength_pos {t : Token} (h : 0 < t.strength) : (∃ j, t = .connective (.junction j)) ∨
    (∃ a, t = .connective (.arrow a)) ∨ t = .colon := by
  cases t with
  | connective c =>
    cases c with
    | not => cases h
    | junction j => exact .inl ⟨j, rfl⟩
    | arrow a => exact .inr (.inl ⟨a, rfl⟩)
  | colon => exact .inr (.inr rfl)
  | atom | opening | closing | slash => cases h

end Parser

end DefaultLogic
