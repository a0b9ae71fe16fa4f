import DefaultLogic.CommandLine.Command
import DefaultLogic.Proofs.Dataset.Json
import DefaultLogic.Proofs.Default.Statements
import DefaultLogic.Proofs.Dialect.RoundTrip
import Mathlib.Data.List.Forall2

/-!
# Reading written datasets

A theory that was loaded in one dialect is written in another one, as a dataset of its own.  What
was read has no junction of less than two operands, and its names match the pattern of atoms, which
the dialects share.  So the only theories that are not read back are those with a command of the
display markup for a name, as plain text allows it.  Of the documents themselves no more is used
than that a theory's document is read as what it says.

* `Spec.load_eq_ok_iff`: a theory is loaded if all its texts are read.
* `Dialect.IsName.iff_noCommand`: names of one dialect are names of another one unless they are
  commands there.
* `Theory.isReadable_of_load`, `Theory.load_spec`: **a theory that was loaded is loaded again once
  its rules and facts are written.**
* `Dataset.read_written`: **a written dataset is read as the texts of its theory.**
* `Dataset.firstTheory_written`: **a translated theory is loaded as it was exactly if it is not
  written in the display markup or none of its names is a command.**
-/

namespace DefaultLogic

/-! ## Texts -/

theorem mapError_eq_ok_iff {ε ε' α : Type} {f : ε → ε'} {x : Except ε α} {a : α} :
    x.mapError f = .ok a ↔ x = .ok a := by
  cases x with
  | error e => exact ⟨nofun, nofun⟩
  | ok b => exact ⟨fun h => by cases h; rfl, fun h => by cases h; rfl⟩

namespace Dialect

variable {d : Dialect} {text : String}

theorem readFormula_eq_ok_iff {f : Formula} :
    d.readFormula text = .ok f ↔ d.parse text = .ok (.formula f) := by
  rw [readFormula, bind_eq_ok_iff]
  constructor
  · rintro ⟨s, hs, h⟩
    rw [read, mapError_eq_ok_iff] at hs
    cases s with
    | formula g =>
      cases h
      exact hs
    | rule r => cases h
  · intro h
    exact ⟨.formula f, mapError_eq_ok_iff.2 h, rfl⟩

theorem readRule_eq_ok_iff {r : Rule} :
    d.readRule text = .ok r ↔ d.parse text = .ok (.rule r) := by
  rw [readRule, bind_eq_ok_iff]
  constructor
  · rintro ⟨s, hs, h⟩
    rw [read, mapError_eq_ok_iff] at hs
    cases s with
    | rule q =>
      cases h
      exact hs
    | formula f => cases h
  · intro h
    exact ⟨.rule r, mapError_eq_ok_iff.2 h, rfl⟩

end Dialect

/-! ## Loaded theories -/

namespace Spec

variable {α : Type} {read : String → Except Failure α} {context : Nat → Context}
  {texts : List String} {as : List α}

theorem readEach_eq_ok_iff :
    readEach read context texts = .ok as ↔
      List.Forall₂ (fun text a => read text = .ok a) texts as := by
  have hfrom : ∀ n, (texts.zipIdx n).mapM (fun p =>
      (read p.1).mapError (Failure.within (context p.2))) = .ok as ↔
        List.Forall₂ (fun text a => read text = .ok a) texts as := by
    induction texts generalizing as with
    | nil =>
      intro n
      rw [List.zipIdx_nil, List.mapM_nil, List.forall₂_nil_left_iff]
      exact ⟨fun h => by cases h; rfl, fun h => by rw [h]; rfl⟩
    | cons text texts ih =>
      intro n
      rw [List.zipIdx_cons, List.mapM_cons, bind_eq_ok_iff, List.forall₂_cons_left_iff]
      constructor
      · rintro ⟨a, ha, h⟩
        obtain ⟨bs, hbs, h⟩ := bind_eq_ok_iff.1 h
        cases h
        exact ⟨a, bs, mapError_eq_ok_iff.1 ha, (ih _).1 hbs, rfl⟩
      · rintro ⟨a, bs, ha, hbs, rfl⟩
        exact ⟨a, mapError_eq_ok_iff.2 ha, bind_eq_ok_iff.2 ⟨bs, (ih _).2 hbs, rfl⟩⟩
  exact hfrom 0

variable {d : Dialect} {s : Spec} {t : Theory}

/-- **A theory is loaded if all its texts are read.** -/
theorem load_eq_ok_iff :
    s.load d = .ok t ↔ ∃ rules facts,
      List.Forall₂ (fun text r => d.parse text = .ok (.rule r)) s.rules rules ∧
      List.Forall₂ (fun text f => d.parse text = .ok (.formula f)) s.facts facts ∧
      t = .ofContent rules facts := by
  rw [load, bind_eq_ok_iff]
  simp only [bind_eq_ok_iff, readEach_eq_ok_iff, Dialect.readRule_eq_ok_iff,
    Dialect.readFormula_eq_ok_iff]
  constructor
  · rintro ⟨rules, hrules, facts, hfacts, h⟩
    cases h
    exact ⟨rules, facts, hrules, hfacts, rfl⟩
  · rintro ⟨rules, facts, hrules, hfacts, rfl⟩
    exact ⟨rules, hrules, facts, hfacts, rfl⟩

end Spec

/-! ## Commands -/

/-- A command of a connective in the display markup, alone or with an index. -/
def IsCommand (name : String) : Prop :=
  ∃ c : Connective, name.toList = c.markup.toList ∨
    ∃ digit : Char, digit.isDigit = true ∧ name.toList = c.markup.toList ++ ['_', digit]

def Connective.all : List Connective :=
  [.not, .junction .and, .junction .or, .arrow .material, .arrow .internal, .arrow .equivalence]

theorem Connective.mem_all (c : Connective) : c ∈ all := by
  rcases c with _ | (_ | _) | (_ | _ | _) <;> decide

theorem isCommand_iff {name : String} :
    IsCommand name ↔ ∃ c ∈ Connective.all, name.toList = c.markup.toList ∨
      (name.toList.any fun digit =>
        digit.isDigit && name.toList = c.markup.toList ++ ['_', digit]) = true := by
  simp only [List.any_eq_true, Bool.and_eq_true, decide_eq_true_iff]
  constructor
  · rintro ⟨c, hc | ⟨digit, hdigit, hc⟩⟩
    · exact ⟨c, c.mem_all, .inl hc⟩
    · have hmem : digit ∈ name.toList := by
        rw [hc]
        exact List.mem_append_right _ (List.mem_cons_of_mem _ List.mem_cons_self)
      exact ⟨c, c.mem_all, .inr ⟨digit, hmem, hdigit, hc⟩⟩
  · rintro ⟨c, -, hc | ⟨digit, -, hdigit, hc⟩⟩
    · exact ⟨c, .inl hc⟩
    · exact ⟨c, .inr ⟨digit, hdigit, hc⟩⟩

instance (name : String) : Decidable (IsCommand name) := decidable_of_iff _ isCommand_iff.symm

theorem Dialect.IsName.iff_noCommand {d d' : Dialect} {name : String} (h : d.IsName name) :
    d'.IsName name ↔ (d' = .displayMarkup → ¬IsCommand name) := by
  constructor
  · rintro hname hd ⟨c, hc | ⟨digit, hdigit, hc⟩⟩
    · exact (hname.noCommand hd c).1 hc
    · exact (hname.noCommand hd c).2 digit hdigit hc
  · intro hno
    exact ⟨h.pattern, fun hd c => ⟨fun hc => hno hd ⟨c, .inl hc⟩,
      fun digit hdigit hc => hno hd ⟨c, .inr ⟨digit, hdigit, hc⟩⟩⟩⟩

/-- Nothing can be read of a command that stands alone in braces, as it has no atom. -/
theorem Dialect.parse_command_ne_ok (c : Connective) (s : Statement) :
    displayMarkup.parse (displayMarkup.renderFormula (.atom c.markup)) ≠ .ok s := by
  intro h
  have hwrites : displayMarkup.Writes (displayMarkup.written (.atom c.markup))
      [.opening .curly, .connective c, .closing .curly] := by
    have hinner := (writes_symbol (mem_symbols_connective c)).append
      (writes_symbol (mem_symbols_bracket (d := displayMarkup)).2) (parted_closing _)
    rw [written_atom]
    exact (writes_symbol (mem_symbols_bracket (d := displayMarkup)).1).append hinner
      (parted_opening _)
  obtain ⟨ts, hsplit, hderives⟩ := (parse_eq_ok_iff displayMarkup _ s).1 h
  obtain rfl := hsplit.unique hwrites.split_nil
  obtain ⟨f, hf⟩ : ∃ f, f ∈ s.formulas := by
    cases s with
    | formula f => exact ⟨f, List.mem_cons_self⟩
    | rule r => exact ⟨r.prerequisite, List.mem_cons_self⟩
  obtain ⟨us, hsub, hus⟩ := hderives.exists_derives f hf
  have hne := (hus.minOperands.mono (Nat.le_succ 1)).occurrences_ne_nil
  obtain ⟨name, hname⟩ := List.exists_mem_of_ne_nil _ hne
  have hmem := hsub (hus.mem_of_mem_occurrences hname)
  simp at hmem

/-! ## Written theories -/

theorem Statement.mem_occurrences_iff {s : Statement} {name : String} :
    name ∈ s.occurrences ↔ ∃ f ∈ s.formulas, name ∈ f.occurrences := by
  cases s with
  | formula f => simp [occurrences, formulas]
  | rule r => simp [occurrences, formulas, Rule.occurrences]

/-- Whether each junction of a statement has two operands or more and each name is read as an
atom. -/
structure Statement.IsReadable (d : Dialect) (s : Statement) : Prop where
  minOperands : ∀ f ∈ s.formulas, f.MinOperands 2
  isName : ∀ f ∈ s.formulas, ∀ name ∈ f.occurrences, d.IsName name

namespace Dialect

variable {d : Dialect} {s : Statement}

theorem isReadable_of_parse {text : String} (h : d.parse text = .ok s) : s.IsReadable d := by
  obtain ⟨ts, hsplit, hderives⟩ := (parse_eq_ok_iff d text s).1 h
  constructor
  · intro f hf
    obtain ⟨us, -, hus⟩ := hderives.exists_derives f hf
    exact hus.minOperands
  · intro f hf name hname
    obtain ⟨us, hsub, hus⟩ := hderives.exists_derives f hf
    exact hsplit.isName name (hsub (hus.mem_of_mem_occurrences hname))

theorem parse_render_of_isReadable (h : s.IsReadable d) : d.parse (d.render s) = .ok s := by
  have hread := parse_render_of_minOperands fun f hf =>
    ⟨(h.minOperands f hf).mono (Nat.le_succ 1), h.isName f hf⟩
  rwa [Statement.map_collapsed h.minOperands] at hread

end Dialect

theorem exists_mem_of_forall₂ {α β : Type} {R : α → β → Prop} {xs : List α} {ys : List β}
    (h : List.Forall₂ R xs ys) {y : β} (hy : y ∈ ys) : ∃ x ∈ xs, R x y := by
  induction h with
  | nil => exact absurd hy List.not_mem_nil
  | @cons x _ _ _ hxy _ ih =>
    rcases List.mem_cons.1 hy with rfl | hy
    · exact ⟨x, List.mem_cons_self, hxy⟩
    · obtain ⟨x', hx', hR⟩ := ih hy
      exact ⟨x', List.mem_cons_of_mem x hx', hR⟩

namespace Theory

variable {d d' : Dialect} {t : Theory} {s : Spec}

def statements (t : Theory) : List Statement := t.rules.map .rule ++ t.facts.map .formula

/-- Whether a theory was told its rules and then its facts, all of which are readable. -/
structure IsReadable (d : Dialect) (t : Theory) : Prop where
  content : t = .ofContent t.rules t.facts
  statements : ∀ s ∈ t.statements, s.IsReadable d

/-- **A loaded theory is readable.** -/
theorem isReadable_of_load (h : s.load d = .ok t) : t.IsReadable d := by
  obtain ⟨rules, facts, hrules, hfacts, rfl⟩ := Spec.load_eq_ok_iff.1 h
  obtain ⟨heqrules, heqfacts⟩ := content_ofContent rules facts
  refine ⟨by rw [heqrules, heqfacts], ?_⟩
  rw [statements, heqrules, heqfacts]
  refine List.forall_mem_append.2 ⟨List.forall_mem_map.2 fun r hr => ?_,
    List.forall_mem_map.2 fun f hf => ?_⟩
  · obtain ⟨text, -, htext⟩ := exists_mem_of_forall₂ hrules hr
    exact Dialect.isReadable_of_parse htext
  · obtain ⟨text, -, htext⟩ := exists_mem_of_forall₂ hfacts hf
    exact Dialect.isReadable_of_parse htext

/-- The texts of a theory in a dialect. -/
def spec (d : Dialect) (t : Theory) : Spec :=
  { rules := t.rules.map d.renderRule, facts := t.facts.map d.renderFormula }

/-- **A readable theory is loaded as it was once it is written.** -/
theorem load_spec (h : t.IsReadable d) : (t.spec d).load d = .ok t := by
  have hparse : ∀ s ∈ t.statements, d.parse (d.render s) = .ok s :=
    fun s hs => Dialect.parse_render_of_isReadable (h.statements s hs)
  obtain ⟨hrules, hfacts⟩ := List.forall_mem_append.1 hparse
  refine Spec.load_eq_ok_iff.2 ⟨t.rules, t.facts, ?_, ?_, h.content⟩
  · rw [spec, List.forall₂_map_left_iff, List.forall₂_same]
    exact List.forall_mem_map.1 hrules
  · rw [spec, List.forall₂_map_left_iff, List.forall₂_same]
    exact List.forall_mem_map.1 hfacts

theorem load_spec_iff : (t.spec d).load d = .ok t ↔ t.IsReadable d :=
  ⟨isReadable_of_load, load_spec⟩

theorem IsReadable.mem_atoms_iff (h : t.IsReadable d) {name : String} :
    name ∈ t.atoms ↔ ∃ s ∈ t.statements, ∃ f ∈ s.formulas, name ∈ f.occurrences := by
  have hatoms : name ∈ t.atoms ↔ ∃ s ∈ t.statements, name ∈ s.occurrences := by
    conv => lhs; rw [h.content, ofContent_eq_ofStatements]
    exact mem_atoms_ofStatements
  rw [hatoms]
  exact exists_congr fun s => and_congr_right fun _ => Statement.mem_occurrences_iff

/-- **A readable theory can be read in another dialect if none of its names is a command there.** -/
theorem IsReadable.iff_noCommand (h : t.IsReadable d) :
    t.IsReadable d' ↔ (d' = .displayMarkup → ∀ name ∈ t.atoms, ¬IsCommand name) := by
  constructor
  · intro h' hd name hname
    obtain ⟨s, hs, f, hf, hmem⟩ := h.mem_atoms_iff.1 hname
    have hname := (h.statements s hs).isName f hf name hmem
    exact hname.iff_noCommand.1 ((h'.statements s hs).isName f hf name hmem) hd
  · intro hno
    refine ⟨h.content, fun s hs => ⟨(h.statements s hs).minOperands, fun f hf name hmem => ?_⟩⟩
    have hname := (h.statements s hs).isName f hf name hmem
    exact hname.iff_noCommand.2 fun hd => hno hd name (h.mem_atoms_iff.2 ⟨s, hs, f, hf, hmem⟩)

end Theory

namespace Dataset

variable {d : Dialect} {t : Theory} {F : Format}

/-- **A written dataset is read as the texts of its theory.** -/
theorem read_written (hF : F.IsFaithful) (d : Dialect) (t : Theory) :
    Dataset.read F (written F d t.rules t.facts) =
      .ok { dialect := d, theories := [t.spec d] } := by
  rw [read, written, hF]
  cases d <;> rfl

/-! ## Translations -/

/-- **A theory that was loaded is loaded as it was once it is translated, exactly if it is not
written in the display markup or none of its names is a command of that markup.**  This is so
whatever it is written in if it was loaded in the display markup.  In any case what is written is
read as a dataset of one theory in the dialect. -/
theorem firstTheory_written {s : Dataset} (hF : F.IsFaithful)
    (h : Shell.firstTheory .noTheory s = .ok t) (d : Dialect) :
    ∃ s', Dataset.read F (written F d t.rules t.facts) = .ok s' ∧ s'.dialect = d ∧
      s'.theories.length = 1 ∧
      (Shell.firstTheory .noTheory s' = .ok t ↔
        (d = .displayMarkup → ∀ name ∈ t.atoms, ¬IsCommand name)) ∧
      (s.dialect = .displayMarkup → Shell.firstTheory .noTheory s' = .ok t) := by
  have hloaded : t.IsReadable s.dialect := by
    rw [Shell.firstTheory] at h
    split at h
    · cases h
    · exact Theory.isReadable_of_load h
  have hiff : (t.spec d).load d = .ok t ↔
      (d = .displayMarkup → ∀ name ∈ t.atoms, ¬IsCommand name) :=
    Theory.load_spec_iff.trans hloaded.iff_noCommand
  refine ⟨{ dialect := d, theories := [t.spec d] }, read_written hF d t, rfl, rfl, hiff, ?_⟩
  intro hs
  rw [hs] at hloaded
  exact hiff.2 fun _ => hloaded.iff_noCommand.1 hloaded rfl

/-- A name may go on after a command, or have an index. -/
theorem firstTheory_written_top :
    let s : Dataset := { theories := [{ rules := ["a : b_1 / \\top"], facts := ["a -> b_1"] }] }
    let t := Theory.ofContent [⟨.atom "a", .atom "b_1", .atom "\\top"⟩]
      [.imply (.atom "a") (.atom "b_1")]
    Shell.firstTheory .noTheory s = .ok t ∧
      ∃ s', Dataset.read .json (written .json .displayMarkup t.rules t.facts) = .ok s' ∧
        Shell.firstTheory .noTheory s' = .ok t := by
  intro s t
  have hloads : Shell.firstTheory .noTheory s = .ok t := by
    cbv
  have hnames : ∀ name ∈ t.atoms, ¬IsCommand name := by
    decide
  obtain ⟨s', hread, -, -, hiff, -⟩ :=
    firstTheory_written Format.json_isFaithful hloads .displayMarkup
  exact ⟨hloads, s', hread, hiff.2 fun _ => hnames⟩

/-- The command of the implication is a name in plain text, and what is written for this name in the
display markup is not loaded. -/
theorem firstTheory_written_command :
    let s : Dataset := { theories := [{ facts := ["\\to"] }] }
    let t := Theory.ofContent [] [.atom "\\to"]
    Shell.firstTheory .noTheory s = .ok t ∧
      ∃ s', Dataset.read .json (written .json .displayMarkup t.rules t.facts) = .ok s' ∧
        s'.dialect = .displayMarkup ∧ ∀ t', Shell.firstTheory .noTheory s' ≠ .ok t' := by
  intro s t
  have hloads : Shell.firstTheory .noTheory s = .ok t := by
    cbv
  refine ⟨hloads, _, read_written Format.json_isFaithful .displayMarkup t, rfl, fun t' ht' => ?_⟩
  obtain ⟨-, facts, -, hfacts, -⟩ := Spec.load_eq_ok_iff.1 ht'
  obtain ⟨f, _, hread, -⟩ := List.forall₂_cons_left_iff.1 hfacts
  exact Dialect.parse_command_ne_ok (.arrow .material) _ hread

end Dataset

end DefaultLogic
