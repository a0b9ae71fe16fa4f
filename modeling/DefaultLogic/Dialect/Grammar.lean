import DefaultLogic.Dialect.Parser

/-!
# Grammar

Which lists of tokens stand for which formulas and rules, and which texts for which tokens, told
without regard to how they are read.
-/

namespace DefaultLogic

/-! ## Texts -/

/-- The pattern of atoms: letters, after a backslash or not, and perhaps an index. -/
structure AtomPattern (word : List Char) : Prop where
  shape : ∃ slash letters index : List Char, word = slash ++ letters ++ index ∧
    (slash = [] ∨ slash = ['\\']) ∧ letters ≠ [] ∧ (∀ c ∈ letters, c.isAlpha = true) ∧
    (index = [] ∨ ∃ digit : Char, digit.isDigit = true ∧ index = ['_', digit])

namespace Dialect

structure Fits (d : Dialect) (t : Token) (word rest : List Char) : Prop where
  symbol : t ∈ d.symbols
  spelling : (d.spell t).toList = word
  ends : endsWord word rest = true

/-- How one token is cut off: the longest symbol that fits, or else the longest atom. -/
inductive Cut (d : Dialect) : List Char → Token → List Char → Prop
  | symbol {t word rest} (fits : d.Fits t word rest)
      (longest : ∀ u word' rest', word' ++ rest' = word ++ rest → d.Fits u word' rest' →
        word'.length ≤ word.length) : Cut d (word ++ rest) t rest
  | atom {word rest} (pattern : AtomPattern word)
      (noSymbol : ∀ u word' rest', word' ++ rest' = word ++ rest → ¬d.Fits u word' rest')
      (longest : ∀ word' rest', word' ++ rest' = word ++ rest → AtomPattern word' →
        word'.length ≤ word.length) : Cut d (word ++ rest) (.atom (String.ofList word)) rest

/-- The tokens of a text, blanks being skipped. -/
inductive Split (d : Dialect) : List Char → List Token → Prop
  | nil : Split d [] []
  | blank {c cs ts} (h : Text.isBlank c = true) (tail : Split d cs ts) : Split d (c :: cs) ts
  | token {cs rest t ts} (cut : d.Cut cs t rest) (tail : Split d rest ts) : Split d cs (t :: ts)

end Dialect

/-! ## Token lists -/

/-- The levels of the grammar, from the tightest.  A chain knows its last junction. -/
inductive Strength where
  | primary
  | chain (last? : Option Junction)
  | equivalence
  | implication
  deriving DecidableEq

inductive Derives : Strength → List Token → Formula → Prop
  | atom (name : String) : Derives .primary [.atom name] (.atom name)
  | not {ts f} (h : Derives .primary ts f) : Derives .primary (.connective .not :: ts) (.not f)
  | brackets {ts f} (b : Bracket) (h : Derives .implication ts f) :
      Derives .primary (.opening b :: (ts ++ [.closing b])) f
  | single {ts f} (h : Derives .primary ts f) : Derives (.chain none) ts f
  | link {last? ts us f g} (j : Junction) (hf : Derives (.chain last?) ts f)
      (hg : Derives .primary us g) :
      Derives (.chain (some j)) (ts ++ .connective (.junction j) :: us) (f.chain last? j g)
  | chain {last? ts f} (h : Derives (.chain last?) ts f) : Derives .equivalence ts f
  | equivalent {last? ts us f g} (hf : Derives .equivalence ts f)
      (hg : Derives (.chain last?) us g) :
      Derives .equivalence (ts ++ .connective (.arrow .equivalence) :: us) (.equiv f g)
  | equivalence {ts f} (h : Derives .equivalence ts f) : Derives .implication ts f
  | imply {ts us f g} (hf : Derives .equivalence ts f) (hg : Derives .implication us g) :
      Derives .implication (ts ++ .connective (.arrow .material) :: us) (.imply f g)
  | implication {ts us f g} (hf : Derives .equivalence ts f) (hg : Derives .implication us g) :
      Derives .implication (ts ++ .connective (.arrow .internal) :: us) (.implication f g)

/-- A rule may stand in brackets, and is no part of anything else. -/
inductive DerivesStatement : List Token → Statement → Prop
  | formula {ts f} (h : Derives .implication ts f) : DerivesStatement ts (.formula f)
  | rule {ts us vs f g h} (hf : Derives .implication ts f) (hg : Derives .implication us g)
      (hh : Derives .implication vs h) :
      DerivesStatement (ts ++ .colon :: us ++ .slash :: vs) (.rule ⟨f, g, h⟩)
  | brackets {ts r} (b : Bracket) (h : DerivesStatement ts (.rule r)) :
      DerivesStatement (.opening b :: (ts ++ [.closing b])) (.rule r)

end DefaultLogic
