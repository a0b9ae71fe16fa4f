import DefaultLogic.Proofs.Dialect.Places
import Mathlib

/-!
# Where errors show

A reader is left with the last lexemes, and the token behind those taken has been found.  It fails
at one of the lexemes, at the end of the text, or where no token fits.

* `EndsIn.bind`: what holds of a result, and of an error, passes on from step to step.
* `expression_endsIn`, `primary_endsIn`, `climb_endsIn`: each reader leaves some of its lexemes or
  fails in one of the ways listed.
* `Dialect.parse_shows`: **an error shows at the end of the text or at a character that is no blank,
  and a text counts as empty exactly when it is blank.**
-/

namespace DefaultLogic

/-- What holds of a result, and what of an error. -/
def EndsIn {ε α : Type} (post : α → Prop) (fail : ε → Prop) : Except ε α → Prop
  | .ok a => post a
  | .error e => fail e

theorem EndsIn.bind {ε α β : Type} {post : α → Prop} {post' : β → Prop} {fail : ε → Prop}
    {x : Except ε α} {f : α → Except ε β} (h : EndsIn post fail x)
    (hf : ∀ a, post a → EndsIn post' fail (f a)) : EndsIn post' fail (x >>= f) := by
  cases x with
  | error e => exact h
  | ok a => exact hf a h

namespace Parser

/-- The errors of the readers of a list of lexemes. -/
inductive Fails (all : List Lexeme) (stop : Stop) : ParseError → Prop
  | expected {l} (h : l ∈ all) (symbol : String) :
      Fails all stop ((Fault.expected symbol).at l.mark)
  | unexpected {l} (h : l ∈ all) (symbol : String) :
      Fails all stop ((Fault.unexpected symbol).at l.mark)
  | ruleAsOperand {l} (h : l ∈ all) : Fails all stop (Fault.ruleAsOperand.at l.mark)
  | unknownSymbol {m} (h : stop = .unknown m) : Fails all stop (Fault.unknownSymbol.at m)
  | expectedAtEnd {m} (h : stop = .complete m) (symbol : String) :
      Fails all stop ((Fault.expected symbol).at m)
  | endsEarly {m} (h : stop = .complete m) : Fails all stop (Fault.endsEarly.at m)

/-- The last lexemes are left, and it is known what comes next. -/
structure Remains (all : List Lexeme) (stop : Stop) (ls : List Lexeme) : Prop where
  isSuffix : ls <:+ all
  check : stop.check ls = .ok ()

variable {d : Dialect} {stop : Stop} {all ls : List Lexeme} {l : Lexeme}

theorem Remains.mem (h : Remains all stop (l :: ls)) : l ∈ all :=
  h.isSuffix.subset List.mem_cons_self

theorem Remains.tail (h : Remains all stop (l :: ls)) : ls <:+ all :=
  (List.suffix_cons l ls).trans h.isSuffix

theorem Remains.exists_complete (h : Remains all stop []) : ∃ m, stop = .complete m := by
  cases stop with
  | complete m => exact ⟨m, rfl⟩
  | unknown m => cases h.check

/-! ## One step -/

theorem check_endsIn (h : ls <:+ all) :
    EndsIn (fun _ => Remains all stop ls) (Fails all stop) (stop.check ls) := by
  cases ls with
  | cons l ls => exact ⟨h, rfl⟩
  | nil =>
    cases stop with
    | complete m => exact ⟨h, rfl⟩
    | unknown m => exact Fails.unknownSymbol rfl

theorem expect_endsIn (h : Remains all stop ls) (t : Token) :
    EndsIn (fun r => Remains all stop r.1) (Fails all stop) (stop.expect d t ls) := by
  cases ls with
  | nil =>
    obtain ⟨m, rfl⟩ := h.exists_complete
    exact Fails.expectedAtEnd rfl (d.spell t)
  | cons l ls =>
    rw [Stop.expect]
    split
    · exact (check_endsIn h.tail).bind fun _ hrest => hrest
    · exact Fails.expected h.mem (d.spell t)

theorem operand_endsIn (h : l ∈ all) (s : Statement) :
    EndsIn (fun _ => True) (Fails all stop) (s.operand l.mark) := by
  cases s with
  | formula f => exact trivial
  | rule r => exact Fails.ruleAsOperand h

/-! ## The readers -/

mutual

theorem expression_endsIn (bound : Nat) {ls : List Lexeme} (h : Remains all stop ls) :
    EndsIn (fun r => Remains all stop r.2.1) (Fails all stop) (expression d stop bound ls) := by
  match ls, h with
  | [], h =>
    obtain ⟨m, rfl⟩ := h.exists_complete
    rw [expression]
    exact Fails.endsEarly rfl
  | l :: ls, h =>
    rw [expression]
    refine (check_endsIn h.tail).bind fun _ hls => ?_
    refine (primary_endsIn h.mem hls).bind fun ⟨left, ls₁, h₁⟩ hls₁ => ?_
    refine (climb_endsIn bound left none hls₁).bind fun ⟨whole, ls₂, h₂⟩ hls₂ => ?_
    exact hls₂
termination_by (ls.length, 0)
decreasing_by
  · exact Prod.Lex.left _ _ (Nat.lt_succ_self _)
  · exact Prod.Lex.left _ _ (Nat.lt_succ_of_le h₁)

theorem primary_endsIn {l : Lexeme} {ls : List Lexeme} (hl : l ∈ all) (h : Remains all stop ls) :
    EndsIn (fun r => Remains all stop r.2.1) (Fails all stop) (primary d stop l ls) := by
  rw [primary]
  split
  · exact h
  · refine (expression_endsIn notStrength h).bind fun ⟨f, ls₁, h₁⟩ hls₁ => ?_
    exact (operand_endsIn hl f).bind fun _ _ => hls₁
  · refine (expression_endsIn 0 h).bind fun ⟨inner, ls₁, h₁⟩ hls₁ => ?_
    exact (expect_endsIn hls₁ _).bind fun ⟨ls₂, h₂⟩ hls₂ => hls₂
  · exact Fails.unexpected hl _
termination_by (ls.length, 1)
decreasing_by all_goals exact Prod.Lex.right _ Nat.zero_lt_one

theorem climb_endsIn (bound : Nat) (left : Statement) (chain? : Option Junction) {ls : List Lexeme}
    (h : Remains all stop ls) :
    EndsIn (fun r => Remains all stop r.2.1) (Fails all stop)
      (climb d stop bound left chain? ls) := by
  match ls, h with
  | [], h =>
    rw [climb]
    exact h
  | l :: ls, h =>
    rw [climb]
    split
    · refine (check_endsIn h.tail).bind fun _ hls => ?_
      refine (operand_endsIn h.mem left).bind fun f _ => ?_
      split
      · refine (expression_endsIn _ hls).bind fun ⟨g, ls₁, h₁⟩ hls₁ => ?_
        refine (operand_endsIn h.mem g).bind fun g _ => ?_
        exact (climb_endsIn bound _ _ hls₁).bind fun _ hls₂ => hls₂
      · refine (expression_endsIn _ hls).bind fun ⟨g, ls₁, h₁⟩ hls₁ => ?_
        refine (operand_endsIn h.mem g).bind fun g _ => ?_
        exact (climb_endsIn bound _ _ hls₁).bind fun _ hls₂ => hls₂
      · refine (expression_endsIn _ hls).bind fun ⟨g, ls₁, h₁⟩ hls₁ => ?_
        refine (operand_endsIn h.mem g).bind fun g _ => ?_
        refine (expect_endsIn hls₁ _).bind fun ⟨ls₂, h₂⟩ hls₂ => ?_
        have hle : ls₂.length ≤ ls₁.length := h₂
        refine (expression_endsIn _ hls₂).bind fun ⟨k, ls₃, h₃⟩ hls₃ => ?_
        have hlt : ls₃.length < ls₂.length := h₃
        refine (operand_endsIn h.mem k).bind fun k _ => ?_
        exact (climb_endsIn bound _ _ hls₃).bind fun _ hls₄ => hls₄
      · exact Fails.unexpected h.mem _
    · exact h
termination_by (ls.length, 0)
decreasing_by
  all_goals exact Prod.Lex.left _ _ (by simp only [List.length_cons]; omega)

end

end Parser

/-! ## Texts -/

/-- How an error shows: the text can be cut at its position, there it ends or goes on with a
character that is no blank, and the excerpt has the first characters of what is cut off. -/
structure ParseError.ShowsIn (e : ParseError) (text : String) : Prop where
  place : ∃ rest, sliceFrom? text e.position = some rest ∧
    e.excerpt = String.ofList (rest.take 7) ∧
    (e.position = text.utf8ByteSize ∧ rest = [] ∨
      ∃ c cs, rest = c :: cs ∧ Text.isBlank c = false)
  atEnd : e.fault = .emptyText ∨ e.fault = .endsEarly → e.position = text.utf8ByteSize

variable {text : String} {m : Mark} {fault : Fault}

theorem showsIn_of_rest_eq_nil (h : m.LiesIn text) (hrest : m.rest = []) :
    (fault.at m).ShowsIn text := by
  have hend := h.offset_add
  rw [hrest] at hend
  exact ⟨⟨m.rest, Mark.liesIn_iff.1 h, rfl, .inl ⟨hend, hrest⟩⟩, fun _ => hend⟩

theorem showsIn_of_isFilledIn (h : m.IsFilledIn text)
    (hfault : ¬(fault = .emptyText ∨ fault = .endsEarly)) : (fault.at m).ShowsIn text :=
  ⟨⟨m.rest, Mark.liesIn_iff.1 h.liesIn, rfl, .inr h.first⟩, fun hend => absurd hend hfault⟩

namespace Parser.Fails

variable {all : List Lexeme} {stop : Stop} {e : ParseError}

theorem showsIn (h : Fails all stop e) (hall : ∀ l ∈ all, l.mark.IsFilledIn text)
    (hstop : stop.LiesIn text) : e.ShowsIn text := by
  cases h with
  | expected h | unexpected h | ruleAsOperand h => exact showsIn_of_isFilledIn (hall _ h) (by simp)
  | unknownSymbol h =>
    subst h
    exact showsIn_of_isFilledIn hstop (by simp)
  | expectedAtEnd h | endsEarly h =>
    subst h
    exact showsIn_of_rest_eq_nil hstop.1 hstop.2

theorem fault_ne (h : Fails all stop e) : e.fault ≠ .emptyText := by
  cases h <;> exact Fault.noConfusion

end Parser.Fails

namespace Dialect

variable {d : Dialect} {ls : List Lexeme} {stop : Stop}

theorem parse_of_nil {last : Mark} (h : d.lexemes (.start text) = ([], .complete last)) :
    d.parse text = .error (Fault.emptyText.at last) := by
  rw [parse, h]

/-- Where there is a lexeme, or a character that starts none, the readers decide. -/
theorem parse_endsIn (h : d.lexemes (.start text) = (ls, stop))
    (hne : ∀ last, (ls, stop) ≠ ([], .complete last)) :
    EndsIn (fun _ => True) (Parser.Fails ls stop) (d.parse text) := by
  rw [parse, h]
  dsimp only
  split
  · exact absurd rfl (hne _)
  · refine (Parser.check_endsIn (List.suffix_refl ls)).bind fun _ hls => ?_
    refine (Parser.expression_endsIn 0 hls).bind fun ⟨s, rest, hrest⟩ hremains => ?_
    cases rest with
    | nil => exact trivial
    | cons l rest => exact Parser.Fails.expected hremains.mem "End"

/-- **Reading a text cuts it at places only.  An error shows at the end of the text or at a
character that is no blank**, at the end if something is missing, and the text counts as empty
exactly when all its characters are blank. -/
theorem parse_shows (d : Dialect) (text : String) :
    d.scanAll? text 0 = some (d.lexemes (.start text)) ∧
      (∀ e, d.parse text = .error e → e.ShowsIn text) ∧
      ((∃ e, d.parse text = .error e ∧ e.fault = .emptyText) ↔
        ∀ c ∈ text.toList, Text.isBlank c = true) := by
  refine ⟨scanAll?_eq (Mark.liesIn_start text), ?_⟩
  obtain ⟨hls, hstop⟩ := lexemes_places (d := d) (Mark.liesIn_start text)
  have hblank : (∃ last, d.lexemes (.start text) = ([], .complete last)) ↔
      ∀ c ∈ text.toList, Text.isBlank c = true := lexemes_eq_nil_iff
  rw [← hblank]
  generalize hlexemes : d.lexemes (.start text) = lexemes at hls hstop
  obtain ⟨ls, stop⟩ := lexemes
  by_cases hempty : ∃ last, (ls, stop) = ([], .complete last)
  · obtain ⟨last, heq⟩ := hempty
    rw [heq] at hlexemes hstop
    rw [parse_of_nil hlexemes]
    constructor
    · intro e he
      cases he
      exact showsIn_of_rest_eq_nil hstop.1 hstop.2
    · exact iff_of_true ⟨_, rfl, rfl⟩ ⟨last, heq⟩
  · have hends := parse_endsIn hlexemes fun last heq => hempty ⟨last, heq⟩
    have hfails : ∀ e, d.parse text = .error e → Parser.Fails ls stop e := by
      intro e he
      rw [he] at hends
      exact hends
    refine ⟨fun e he => (hfails e he).showsIn hls hstop, iff_of_false ?_ hempty⟩
    rintro ⟨e, he, hfault⟩
    exact (hfails e he).fault_ne hfault

/-- The position counts bytes, three of them for the wide blank, and the excerpt characters. -/
theorem parse_shows_wide :
    let text := "a &\u3000?\u00e9 b | c"
    let e : ParseError := ⟨.unknownSymbol, 6, "?\u00e9 b | "⟩
    plainText.parse text = .error e ∧ e.ShowsIn text := by
  intro text e
  have hparse : plainText.parse text = .error e := by
    cbv
  exact ⟨hparse, (parse_shows plainText text).2.1 e hparse⟩

end Dialect

end DefaultLogic
