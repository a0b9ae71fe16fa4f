import DefaultLogic.Dialect.Readable
import DefaultLogic.Proofs.Dialect.Grammar
import Mathlib.Data.List.Basic

/-!
# Writing texts for tokens

Two texts can be read side by side as they can be read alone if no word runs from one into the
other.  So the text of a formula is put together from those of its tokens, each read by itself.

* `writes_symbol`, `writes_atom`: symbols and names are read back.
* `Writes.append`: texts that are parted are read one after the other.
* `tells_written`: **what is written for a formula is read as a primary that stands for it,
  junctions of single operands aside.**
-/

namespace DefaultLogic

theorem Text.isAlpha_eq_false {c : Char} (h : isAlphanumeric c = false) : c.isAlpha = false := by
  refine Bool.eq_false_iff.2 fun halpha => ?_
  rw [isAlphanumeric_of_isAlpha halpha] at h
  cases h

theorem Formula.chain_none (j : Junction) (f g : Formula) :
    f.chain none j g = .junction j [f, g] := by
  cases f <;> rfl

/-! ## Words side by side -/

def inWord (c : Char) : Bool := Text.isAlphanumeric c || c = '_'

theorem inWord_of_isAlpha {c : Char} (h : c.isAlpha = true) : inWord c = true := by
  rw [inWord, Text.isAlphanumeric_of_isAlpha h, Bool.true_or]

theorem inWord_of_isDigit {c : Char} (h : c.isDigit = true) : inWord c = true := by
  rw [inWord, Text.isAlphanumeric, Char.isAlphanum, h, Bool.or_true, Bool.true_or, Bool.true_or]

/-- No word runs from the first text into the second. -/
def Parted (w w' : List Char) : Prop :=
  ∀ a ∈ w.getLast?, ∀ b ∈ w'.head?, inWord a = true → inWord b = false

theorem parted_of_getLast? {w : List Char} (h : w.getLast?.any inWord = false) (w' : List Char) :
    Parted w w' := by
  intro a ha _ _ hword
  rw [(Option.any_eq_false _ _).1 h a ha] at hword
  cases hword

theorem parted_of_head? {w' : List Char} (h : w'.head?.any inWord = false) (w : List Char) :
    Parted w w' :=
  fun _ _ b hb _ => (Option.any_eq_false _ _).1 h b hb

theorem parted_append_left {w w' rest : List Char} (h : w' ≠ []) :
    Parted (w ++ w') rest ↔ Parted w' rest := by
  rw [Parted, List.getLast?_append_of_ne_nil w h, Parted]

theorem parted_append_right {w w' rest : List Char} (h : w' ≠ []) :
    Parted w (w' ++ rest) ↔ Parted w w' := by
  rw [Parted, List.head?_append_of_ne_nil w' h, Parted]

theorem Parted.endsWord {w rest : List Char} (h : Parted w rest) :
    Dialect.endsWord w rest = true := by
  rw [Dialect.endsWord, Bool.not_eq_true', Bool.and_eq_false_iff]
  cases hlast : w.getLast? with
  | none => exact .inl rfl
  | some a =>
    cases hhead : rest.head? with
    | none => exact .inr rfl
    | some b =>
      by_cases ha : Text.isAlphanumeric a = true
      · have hb := h a hlast b hhead (by rw [inWord, ha, Bool.true_or])
        exact .inr (Bool.or_eq_false_iff.1 hb).1
      · exact .inl (Bool.eq_false_iff.2 ha)

theorem isAlphanumeric_of_endsWord {w rest : List Char} (h : Dialect.endsWord w rest = true)
    (hlast : ∃ a ∈ w.getLast?, Text.isAlphanumeric a = true) :
    ∀ b ∈ rest.head?, Text.isAlphanumeric b = false := by
  obtain ⟨a, ha, halnum⟩ := hlast
  intro b hb
  rw [Dialect.endsWord, Option.mem_def.1 ha, Option.mem_def.1 hb, Option.any_some, Option.any_some,
    halnum, Bool.true_and, Bool.not_eq_true'] at h
  exact h

/-! ## Names -/

theorem IsIndex.inWord {index : List Char} (h : IsIndex index) : ∀ c ∈ index, inWord c = true := by
  rcases h with rfl | ⟨digit, hdigit, rfl⟩
  · exact fun _ h => absurd h List.not_mem_nil
  · intro c hc
    rcases List.mem_cons.1 hc with rfl | hc
    · rfl
    · obtain rfl := List.mem_singleton.1 hc
      exact inWord_of_isDigit hdigit

theorem WordPattern.inWord {word : List Char} (h : WordPattern word) :
    ∀ c ∈ word, inWord c = true := by
  obtain ⟨letters, index, rfl, -, halpha, hindex⟩ := h
  intro c hc
  rcases List.mem_append.1 hc with hc | hc
  · exact inWord_of_isAlpha (halpha c hc)
  · exact hindex.inWord c hc

theorem WordPattern.ne_nil {word : List Char} (h : WordPattern word) : word ≠ [] := by
  obtain ⟨c, cs, rfl, -⟩ := h.exists_cons
  exact List.cons_ne_nil c cs

theorem WordPattern.exists_getLast? {word : List Char} (h : WordPattern word) :
    ∃ c ∈ word.getLast?, DefaultLogic.inWord c = true := by
  rw [List.getLast?_eq_some_getLast h.ne_nil]
  exact ⟨_, rfl, h.inWord _ (List.getLast_mem h.ne_nil)⟩

theorem AtomPattern.exists_cons {word : List Char} (h : AtomPattern word) :
    ∃ c cs, word = c :: cs ∧ (∀ a ∈ cs, inWord a = true) ∧
      ∃ a ∈ word.getLast?, inWord a = true := by
  rcases atomPattern_iff.1 h with hword | ⟨tail, rfl, htail⟩
  · obtain ⟨c, cs, rfl, -⟩ := hword.exists_cons
    exact ⟨c, cs, rfl, fun a ha => hword.inWord a (List.mem_cons_of_mem c ha),
      hword.exists_getLast?⟩
  · refine ⟨'\\', tail, rfl, htail.inWord, ?_⟩
    rw [List.getLast?_cons_of_ne_nil htail.ne_nil]
    exact htail.exists_getLast?

theorem AtomPattern.ne_nil {word : List Char} (h : AtomPattern word) : word ≠ [] := by
  obtain ⟨c, cs, rfl, -⟩ := h.exists_cons
  exact List.cons_ne_nil c cs

theorem AtomPattern.length_le {word rest word' rest' : List Char} (h : AtomPattern word)
    (hparted : Parted word rest) (heq : word' ++ rest' = word ++ rest) (h' : AtomPattern word') :
    word'.length ≤ word.length := by
  rcases List.append_eq_append_iff.1 heq with ⟨more, rfl, -⟩ | ⟨more, rfl, rfl⟩
  · rw [List.length_append]
    exact Nat.le_add_right _ _
  · cases more with
    | nil => exact Nat.le_of_eq (congrArg List.length (List.append_nil word))
    | cons b more =>
      -- The character after the atom would go on in the longer one.
      obtain ⟨c, cs, rfl, -, a, ha, hword⟩ := h.exists_cons
      obtain ⟨c', cs', heq', hcs', -⟩ := h'.exists_cons
      obtain ⟨rfl, rfl⟩ := List.cons.inj heq'
      have hb := hparted a ha b rfl hword
      rw [hcs' b (List.mem_append_right cs List.mem_cons_self)] at hb
      cases hb

theorem takeWhile_isAlpha {letters rest : List Char} (h : ∀ c ∈ letters, c.isAlpha = true)
    (hrest : ∀ c ∈ rest.head?, c.isAlpha = false) :
    (letters ++ rest).takeWhile Char.isAlpha = letters := by
  rw [List.takeWhile_append_of_pos h]
  cases rest with
  | nil => exact List.append_nil letters
  | cons c rest =>
    rw [List.takeWhile_cons_of_neg (Bool.eq_false_iff.1 (hrest c rfl)), List.append_nil]

namespace Dialect

variable {d : Dialect}

theorem exists_letters (c : Connective) : ∃ letters : List Char,
    c.markup.toList = '\\' :: letters ∧ letters ≠ [] ∧ ∀ a ∈ letters, a.isAlpha = true := by
  refine ⟨c.markup.toList.tail, ?_, ?_, List.all_eq_true.1 ?_⟩
  all_goals
    rcases c with _ | (_ | _) | (_ | _ | _)
    all_goals decide

/-- A symbol that starts like an atom is the command of a connective. -/
theorem spell_cases {t : Token} (ht : t ∈ d.symbols) :
    (d.spell t).toList.head?.any (fun c => c.isAlpha || c = '\\') = false ∨
      d = .displayMarkup ∧ ∃ c : Connective, t = .connective c := by
  cases t with
  | atom name => cases d <;> simp [symbols] at ht
  | connective c =>
    cases d with
    | plainText =>
      left
      rcases c with _ | (_ | _) | (_ | _ | _)
      all_goals decide
    | displayMarkup => exact .inr ⟨rfl, c, rfl⟩
  | opening b | closing b =>
    left
    cases d <;> cases b <;> decide
  | colon | slash =>
    left
    cases d <;> decide

theorem getLast?_markup (c : Connective) :
    ∃ a ∈ c.markup.toList.getLast?, Text.isAlphanumeric a = true := by
  rcases c with _ | (_ | _) | (_ | _ | _)
  all_goals exact ⟨_, rfl, by decide⟩

theorem IsName.ne_command {name : String} (h : IsName .displayMarkup name) (c : Connective)
    {index : List Char} (hindex : IsIndex index) : name.toList ≠ c.markup.toList ++ index := by
  obtain ⟨hbare, hindexed⟩ := h.noCommand rfl c
  rcases hindex with rfl | ⟨digit, hdigit, rfl⟩
  · rwa [List.append_nil]
  · exact hindexed digit hdigit

theorem IsName.not_fits {name : String} {rest word' rest' : List Char} {t : Token}
    (h : d.IsName name) (hparted : Parted name.toList rest)
    (heq : word' ++ rest' = name.toList ++ rest) : ¬d.Fits t word' rest' := by
  intro hfits
  have hspell := hfits.spelling
  obtain ⟨a, as, hword⟩ := List.exists_cons_of_ne_nil
    (spell_ne_nil_of_mem_symbols t hfits.symbol)
  rcases spell_cases hfits.symbol with hhead | ⟨rfl, c, rfl⟩
  · rw [hword, List.head?_cons, Option.any_some, Bool.or_eq_false_iff,
      decide_eq_false_iff_not] at hhead
    rw [← hspell, hword] at heq
    rcases atomPattern_iff.1 h.pattern with hname | ⟨tail, hname, -⟩
    · obtain ⟨b, bs, hb, hbalpha⟩ := hname.exists_cons
      rw [hb] at heq
      obtain ⟨rfl, -⟩ := List.cons.inj heq
      rw [hhead.1] at hbalpha
      cases hbalpha
    · rw [hname] at heq
      exact hhead.2 (List.cons.inj heq).1
  · -- The command takes all letters of the name, so the name is a command with an index.
    obtain ⟨letters, hmarkup, hne, halpha⟩ := exists_letters c
    obtain rfl : c.markup.toList = word' := hspell
    rcases atomPattern_iff.1 h.pattern with
      hname | ⟨tail, hname, letters', index, rfl, -, halpha', hindex⟩
    · obtain ⟨b, bs, hb, hbalpha⟩ := hname.exists_cons
      rw [hb, hmarkup] at heq
      obtain ⟨rfl, -⟩ := List.cons.inj heq
      cases hbalpha
    · have hrest' : ∀ b ∈ rest'.head?, b.isAlpha = false := by
        intro b hb
        have hlast := getLast?_markup c
        exact Text.isAlpha_eq_false (isAlphanumeric_of_endsWord hfits.ends hlast b hb)
      have hrest : ∀ b ∈ (index ++ rest).head?, b.isAlpha = false := by
        intro b hb
        rcases hindex with rfl | ⟨digit, -, rfl⟩
        · obtain ⟨_, _, -, -, a, ha, haword⟩ := h.pattern.exists_cons
          have hbword := hparted a ha b hb haword
          exact Text.isAlpha_eq_false (Bool.or_eq_false_iff.1 hbword).1
        · obtain rfl := Option.some.inj hb
          rfl
      rw [hname, hmarkup, List.cons_append, List.cons_append, List.append_assoc] at heq
      have hsame : letters = letters' := by
        rw [← takeWhile_isAlpha halpha hrest', ← takeWhile_isAlpha halpha' hrest,
          (List.cons.inj heq).2]
      refine h.ne_command c hindex ?_
      rw [hname, hmarkup, hsame, List.cons_append]

/-! ## Tokens -/

/-- What a text is written for: it is cut into the tokens wherever it is parted from what
follows. -/
structure Writes (d : Dialect) (w : List Char) (ts : List Token) : Prop where
  ne_nil : w ≠ []
  split : ∀ rest us, Parted w rest → d.Split rest us → d.Split (w ++ rest) (ts ++ us)

theorem writes_blank : d.Writes [' '] [] where
  ne_nil := List.cons_ne_nil ' ' []
  split _ _ _ h := .blank (by decide) h

/-- **A symbol is read back.** -/
theorem writes_symbol {t : Token} (ht : t ∈ d.symbols) : d.Writes (d.spell t).toList [t] where
  ne_nil := spell_ne_nil_of_mem_symbols t ht
  split rest us hparted h := by
    have hfits : d.Fits t (d.spell t).toList rest := ⟨ht, rfl, hparted.endsWord⟩
    exact .token hfits.cut h

/-- **A name is read back as an atom.** -/
theorem writes_atom {name : String} (h : d.IsName name) : d.Writes name.toList [.atom name] where
  ne_nil := h.pattern.ne_nil
  split rest us hparted htail := by
    have hcut : d.Cut (name.toList ++ rest) (.atom (String.ofList name.toList)) rest :=
      .atom h.pattern (fun _ _ _ heq => h.not_fits hparted heq)
        fun _ _ heq h' => h.pattern.length_le hparted heq h'
    rw [String.ofList_toList] at hcut
    exact .token hcut htail

/-- **Texts that are parted are read one after the other.** -/
theorem Writes.append {w w' : List Char} {ts us : List Token} (h : d.Writes w ts)
    (h' : d.Writes w' us) (hparted : Parted w w') : d.Writes (w ++ w') (ts ++ us) where
  ne_nil := List.append_ne_nil_of_right_ne_nil w h'.ne_nil
  split rest vs hrest hvs := by
    rw [parted_append_left h'.ne_nil] at hrest
    rw [List.append_assoc, List.append_assoc]
    exact h.split _ _ ((parted_append_right h'.ne_nil).2 hparted) (h'.split rest vs hrest hvs)

theorem Writes.joined {w sep w' : List Char} {ts us : List Token} {t : Token}
    (h : d.Writes w ts) (hsep : d.Writes sep [t]) (h' : d.Writes w' us) (hleft : Parted w sep)
    (hright : Parted sep w') : d.Writes (w ++ sep ++ w') (ts ++ t :: us) := by
  rw [List.append_assoc]
  exact h.append (hsep.append h' hright) ((parted_append_right hsep.ne_nil).2 hleft)

def spaced (d : Dialect) (t : Token) : List Char := [' '] ++ ((d.spell t).toList ++ [' '])

theorem spaced_colon : d.spaced .colon = " : ".toList := by
  cases d <;> decide

theorem spaced_slash : d.spaced .slash = " / ".toList := by
  cases d <;> decide

theorem writes_spaced {t : Token} (ht : t ∈ d.symbols) : d.Writes (d.spaced t) [t] := by
  have hafter := (writes_symbol ht).append writes_blank (parted_of_head? (by decide) _)
  exact writes_blank.append hafter (parted_of_getLast? (by decide) _)

theorem parted_to_spaced (w : List Char) (t : Token) : Parted w (d.spaced t) := by
  refine parted_of_head? ?_ w
  show inWord ' ' = false
  decide

theorem parted_spaced (t : Token) (w : List Char) : Parted (d.spaced t) w := by
  have hlast : (d.spaced t).getLast? = some ' ' := by
    rw [spaced, ← List.append_assoc, List.getLast?_append_of_ne_nil _ (List.cons_ne_nil _ _)]
    rfl
  refine parted_of_getLast? ?_ w
  rw [hlast]
  decide

/-! ## Written forms -/

/-- The brackets in which the operands of an infix connective stand. -/
def bracket : Dialect → Bracket
  | .plainText => .round
  | .displayMarkup => .curly

def enclose (d : Dialect) (w : List Char) : List Char :=
  (d.spell (.opening d.bracket)).toList ++ (w ++ (d.spell (.closing d.bracket)).toList)

/-- What needs no brackets in plain text stands in braces in the display markup. -/
def alone : Dialect → List Char → List Char
  | .plainText, w => w
  | .displayMarkup, w => enclose .displayMarkup w

/-- What stands between the operands of an infix connective. -/
def between : Dialect → Connective → List Char
  | .plainText, c => spaced .plainText (.connective c)
  | .displayMarkup, c => c.markup.toList

def written (d : Dialect) (f : Formula) : List Char := (d.renderFormula f).toList

theorem toList_braced (s : String) :
    (Formula.braced s).toList = enclose .displayMarkup s.toList := by
  rw [Formula.braced, String.toList_append, String.toList_append, List.append_assoc]
  rfl

theorem written_atom (name : String) : d.written (.atom name) = d.alone name.toList := by
  cases d with
  | plainText => rfl
  | displayMarkup => exact toList_braced name

theorem written_not (f : Formula) :
    d.written (.not f) = d.alone ((d.symbol .not).toList ++ d.written f) := by
  cases d with
  | plainText => exact String.toList_append
  | displayMarkup =>
    refine (toList_braced _).trans ?_
    rw [String.toList_append]
    rfl

def joinOperands : Dialect → Connective → List String → String
  | .plainText, c, ts => Formula.joinPlain c ts
  | .displayMarkup, c, ts => Formula.braced (c.markup.intercalate ts)

theorem renderFormula_junction (j : Junction) (fs : List Formula) :
    d.renderFormula (.junction j fs) =
      d.joinOperands (.junction j) (fs.map d.renderFormula) := by
  cases d with
  | plainText => exact Formula.plain_junction j fs
  | displayMarkup => exact Formula.markup_junction j fs

theorem renderFormula_arrow (a : Arrow) (l r : Formula) :
    d.renderFormula (.arrow a l r) =
      d.joinOperands (.arrow a) [d.renderFormula l, d.renderFormula r] := by
  cases d <;> rfl

theorem toList_joinOperands_single (c : Connective) (t : String) :
    (d.joinOperands c [t]).toList = d.alone t.toList := by
  cases d with
  | plainText => rfl
  | displayMarkup =>
    rw [joinOperands, toList_braced, String.toList_intercalate, List.map_singleton,
      List.intercalate_singleton]
    rfl

theorem toList_joinOperands (c : Connective) (t u : String) (ts : List String) :
    (d.joinOperands c (t :: u :: ts)).toList =
      d.enclose ((d.between c).intercalate ((t :: u :: ts).map String.toList)) := by
  cases d with
  | plainText =>
    rw [joinOperands, Formula.joinPlain]
    · simp only [String.toList_append, String.toList_intercalate, List.append_assoc]
      rfl
    · exact fun _ h => nomatch h
  | displayMarkup =>
    rw [joinOperands, toList_braced, String.toList_intercalate]
    rfl

theorem written_single (j : Junction) (f : Formula) :
    d.written (.junction j [f]) = d.alone (d.written f) := by
  rw [written, renderFormula_junction, List.map_singleton, toList_joinOperands_single]
  rfl

theorem written_junction (j : Junction) (f g : Formula) (fs : List Formula) :
    d.written (.junction j (f :: g :: fs)) =
      d.enclose ((d.between (.junction j)).intercalate ((f :: g :: fs).map d.written)) := by
  rw [written, renderFormula_junction, List.map_cons, List.map_cons, toList_joinOperands,
    ← List.map_cons, ← List.map_cons, List.map_map]
  rfl

theorem written_arrow (a : Arrow) (l r : Formula) :
    d.written (.arrow a l r) =
      d.enclose ((d.between (.arrow a)).intercalate [d.written l, d.written r]) := by
  rw [written, renderFormula_arrow, toList_joinOperands]
  rfl

/-! ## Reading written forms -/

/-- A text for tokens from which a formula of the level is derived. -/
def Tells (d : Dialect) (σ : Strength) (w : List Char) (f : Formula) : Prop :=
  ∃ ts, d.Writes w ts ∧ Derives σ ts f

theorem mem_symbols_bracket :
    .opening d.bracket ∈ d.symbols ∧ .closing d.bracket ∈ d.symbols := by
  cases d <;> decide

theorem mem_symbols_colon : .colon ∈ d.symbols := by
  cases d <;> decide

theorem mem_symbols_slash : .slash ∈ d.symbols := by
  cases d <;> decide

theorem mem_symbols_connective (c : Connective) : .connective c ∈ d.symbols := by
  cases d <;> rcases c with _ | (_ | _) | (_ | _ | _) <;> decide

theorem parted_opening (w : List Char) : Parted (d.spell (.opening d.bracket)).toList w := by
  refine parted_of_getLast? ?_ w
  cases d <;> decide

theorem parted_closing (w : List Char) : Parted w (d.spell (.closing d.bracket)).toList := by
  refine parted_of_head? ?_ w
  cases d <;> decide

/-- In brackets a formula of any level is a primary. -/
theorem Tells.enclose {σ : Strength} {w : List Char} {f : Formula} (h : d.Tells σ w f) :
    d.Tells .primary (d.enclose w) f := by
  obtain ⟨ts, hw, hf⟩ := h
  have hinner := hw.append (writes_symbol mem_symbols_bracket.2) (parted_closing w)
  exact ⟨_, (writes_symbol mem_symbols_bracket.1).append hinner (parted_opening _),
    .brackets d.bracket hf.toImplication⟩

theorem Tells.alone {w : List Char} {f : Formula} (h : d.Tells .primary w f) :
    d.Tells .primary (d.alone w) f := by
  cases d with
  | plainText => exact h
  | displayMarkup => exact h.enclose

theorem head?_written (f : Formula) :
    (written .displayMarkup f).head? = some '\x7b' := by
  cases f with
  | atom name => rw [written_atom]; rfl
  | not f => rw [written_not]; rfl
  | junction j fs =>
    rw [written, renderFormula_junction, joinOperands, toList_braced]
    rfl
  | arrow a l r => rw [written_arrow]; rfl

theorem parted_written_markup (w : List Char) (f : Formula) :
    Parted w (written .displayMarkup f) := by
  refine parted_of_head? ?_ w
  rw [head?_written]
  decide

theorem parted_not (f : Formula) : Parted (d.symbol .not).toList (d.written f) := by
  cases d with
  | plainText => exact parted_of_getLast? (by decide) _
  | displayMarkup => exact parted_written_markup _ f

theorem parted_between (c : Connective) (f : Formula) : Parted (d.between c) (d.written f) := by
  cases d with
  | plainText => exact parted_spaced _ _
  | displayMarkup => exact parted_written_markup _ f

theorem parted_to_between (w : List Char) (c : Connective) : Parted w (d.between c) := by
  cases d with
  | plainText => exact parted_to_spaced w _
  | displayMarkup =>
    obtain ⟨letters, hletters, -⟩ := exists_letters c
    rw [between, hletters]
    refine parted_of_head? ?_ w
    show inWord '\\' = false
    decide

theorem writes_between (c : Connective) : d.Writes (d.between c) [.connective c] := by
  cases d with
  | plainText => exact writes_spaced (mem_symbols_connective c)
  | displayMarkup => exact writes_symbol (mem_symbols_connective c)

theorem Writes.between {w : List Char} {ts us : List Token} {f : Formula} (h : d.Writes w ts)
    (h' : d.Writes (d.written f) us) (c : Connective) :
    d.Writes (w ++ d.between c ++ d.written f) (ts ++ .connective c :: us) :=
  h.joined (writes_between c) h' (parted_to_between w c) (parted_between c f)

theorem intercalate_merge {α : Type} (sep w w' : List α) (ws : List (List α)) :
    sep.intercalate (w :: w' :: ws) = sep.intercalate ((w ++ sep ++ w') :: ws) := by
  cases ws with
  | nil => rw [List.intercalate_cons_cons, List.intercalate_singleton, List.intercalate_singleton]
  | cons v ws =>
    rw [List.intercalate_cons_cons, List.intercalate_cons_cons, List.intercalate_cons_cons]
    simp only [List.append_assoc]

theorem Tells.chain {j : Junction} {gs : List Formula} {w : List Char}
    (h : d.Tells (.chain (some j)) w (.junction j gs)) {fs : List Formula}
    (hfs : ∀ f ∈ fs, d.Tells .primary (d.written f) f.collapsed) :
    d.Tells (.chain (some j)) ((d.between (.junction j)).intercalate (w :: fs.map d.written))
      (.junction j (gs ++ fs.map Formula.collapsed)) := by
  induction fs generalizing w gs with
  | nil =>
    rw [List.map_nil, List.map_nil, List.append_nil, List.intercalate_singleton]
    exact h
  | cons f fs ih =>
    obtain ⟨ts, hw, hleft⟩ := h
    obtain ⟨us, hf, hright⟩ := hfs f List.mem_cons_self
    have hlink := Derives.link j hleft hright
    rw [Formula.chain, if_pos rfl] at hlink
    have hnext := ih ⟨_, hw.between hf (.junction j), hlink⟩
      fun g hg => hfs g (List.mem_cons_of_mem f hg)
    rw [List.map_cons, intercalate_merge, List.map_cons, List.append_cons]
    exact hnext

theorem tells_chain (j : Junction) {f g : Formula} {fs : List Formula}
    (h : ∀ x ∈ f :: g :: fs, d.Tells .primary (d.written x) x.collapsed) :
    d.Tells (.chain (some j))
      ((d.between (.junction j)).intercalate ((f :: g :: fs).map d.written))
      (.junction j ((f :: g :: fs).map Formula.collapsed)) := by
  obtain ⟨ts, hf, hleft⟩ := h f List.mem_cons_self
  obtain ⟨us, hg, hright⟩ := h g (List.mem_cons_of_mem f List.mem_cons_self)
  have hlink : Derives (.chain (some j)) (ts ++ .connective (.junction j) :: us)
      (.junction j [f.collapsed, g.collapsed]) := by
    have hlink := Derives.link j (.single hleft) hright
    rwa [Formula.chain_none] at hlink
  have htwo : d.Tells (.chain (some j)) _ _ :=
    ⟨_, hf.between hg (.junction j), hlink⟩
  have hall := htwo.chain fun x hx => h x (List.mem_cons_of_mem f (List.mem_cons_of_mem g hx))
  rw [List.map_cons, List.map_cons, intercalate_merge]
  exact hall

/-- **What is written for a formula is read as a primary that stands for it**, junctions of single
operands aside. -/
theorem tells_written {f : Formula} (h : f.MinOperands 1)
    (hnames : ∀ name ∈ f.occurrences, d.IsName name) :
    d.Tells .primary (d.written f) f.collapsed := by
  induction f with
  | atom name =>
    have hname := hnames name (List.mem_singleton_self name)
    have hatom : d.Tells .primary name.toList (.atom name) := ⟨_, writes_atom hname, .atom name⟩
    rw [written_atom]
    exact hatom.alone
  | not f ih =>
    cases h with
    | not h =>
      obtain ⟨ts, hw, hf⟩ := ih h hnames
      have hnot : d.Tells .primary ((d.symbol .not).toList ++ d.written f) (.not f.collapsed) :=
        ⟨_, (writes_symbol (mem_symbols_connective .not)).append hw (parted_not f), .not hf⟩
      rw [written_not]
      exact hnot.alone
  | junction j fs ih =>
    cases h with
    | junction _ hlength hoperands =>
      have hall : ∀ f ∈ fs, d.Tells .primary (d.written f) f.collapsed := by
        intro f hf
        refine ih f hf (hoperands f hf) fun name hname => hnames name ?_
        rw [Formula.occurrences_junction]
        exact List.mem_flatMap_of_mem hf hname
      rw [Formula.collapsed_junction]
      match fs, hlength, hall with
      | [f], _, hall =>
        rw [written_single]
        exact (hall f List.mem_cons_self).alone
      | f :: g :: fs, _, hall =>
        rw [written_junction]
        exact (tells_chain j hall).enclose
  | arrow a l r ihl ihr =>
    cases h with
    | arrow _ hl hr =>
      obtain ⟨ts, hw, hleft⟩ := ihl hl fun name h => hnames name (List.mem_append_left _ h)
      obtain ⟨us, hw', hright⟩ := ihr hr fun name h => hnames name (List.mem_append_right _ h)
      obtain ⟨ρ, -, -, harrow, -⟩ :=
        Derives.arrow a (hleft.toEquivalence arrowStrength_le) hright trivial
      have hinfix : d.Tells ρ (d.written l ++ d.between (.arrow a) ++ d.written r)
          (.arrow a l.collapsed r.collapsed) :=
        ⟨_, hw.between hw' (.arrow a), harrow⟩
      rw [written_arrow, List.intercalate_cons_cons, List.intercalate_singleton]
      exact hinfix.enclose

end Dialect

end DefaultLogic
