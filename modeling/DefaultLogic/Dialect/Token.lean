import DefaultLogic.Dialect.Basic
import DefaultLogic.Text.Alphanumeric
import DefaultLogic.Text.Blank

/-!
# Tokens

A text is cut into tokens from left to right.  Blanks between tokens are skipped.  A symbol of the
dialect is read where it stands, unless it is a word that goes on: `\land` is no symbol in
`\landing`.  Otherwise the longest atom is read: letters, after a backslash or not, and perhaps an
underscore and one digit.  Reading stops at the end of the text or where neither fits.
-/

namespace DefaultLogic

inductive Bracket where
  | round
  | curly
  deriving DecidableEq

inductive Token where
  | atom (name : String)
  | connective (c : Connective)
  | opening (b : Bracket)
  | closing (b : Bracket)
  | colon
  | slash
  deriving DecidableEq

/-- A place in a text: its byte offset and the characters from there on. -/
structure Mark where
  offset : Nat
  rest : List Char
  deriving DecidableEq

namespace Mark

def start (text : String) : Mark := ⟨0, text.toList⟩

def bytes (cs : List Char) : Nat := cs.foldr (fun c n => c.utf8Size + n) 0

def advance (m : Mark) (n : Nat) : Mark := ⟨m.offset + bytes (m.rest.take n), m.rest.drop n⟩

def skipBlanks (m : Mark) : Mark := m.advance (m.rest.takeWhile Text.isBlank).length

end Mark

structure Lexeme where
  token : Token
  mark : Mark
  deriving DecidableEq

/-- Where reading stops: at the end of the text or at a character that starts no token. -/
inductive Stop where
  | complete (m : Mark)
  | unknown (m : Mark)
  deriving DecidableEq

def Stop.mark : Stop → Mark
  | .complete m | .unknown m => m

namespace Dialect

def spell (d : Dialect) : Token → String
  | .atom name => name
  | .connective c => d.symbol c
  | .opening .round => "("
  | .opening .curly => "\x7b"
  | .closing .round => ")"
  | .closing .curly => "\x7d"
  | .colon => ":"
  | .slash => "/"

/-- The tokens with a fixed spelling; only the display markup groups by braces. -/
def symbols (d : Dialect) : List Token :=
  [.connective .not, .connective (.junction .and), .connective (.junction .or),
    .connective (.arrow .material), .connective (.arrow .internal),
    .connective (.arrow .equivalence), .opening .round, .closing .round, .colon, .slash] ++
  match d with
  | .plainText => []
  | .displayMarkup => [.opening .curly, .closing .curly]

/-- A word that is followed by `rest` ends there unless a letter or digit meets another. -/
def endsWord (word rest : List Char) : Bool :=
  !(word.getLast?.any Text.isAlphanumeric && rest.head?.any Text.isAlphanumeric)

def starts (d : Dialect) (cs : List Char) (t : Token) : Bool :=
  let word := (d.spell t).toList
  word.isPrefixOf cs && endsWord word (cs.drop word.length)

/-- The index that may close an atom, `_7`. -/
def indexAt : List Char → List Char
  | '_' :: c :: _ => if c.isDigit then ['_', c] else []
  | _ => []

/-- The longest run of letters at the start of the text, with its index. -/
def wordAt? (cs : List Char) : Option (List Char) :=
  match cs.takeWhile Char.isAlpha with
  | [] => none
  | c :: letters => some (c :: letters ++ indexAt (cs.drop (letters.length + 1)))

def atomAt? : List Char → Option (List Char)
  | '\\' :: cs => (wordAt? cs).map ('\\' :: ·)
  | cs => wordAt? cs

/-- The token at the start of the text and its spelling. -/
def tokenAt? (d : Dialect) (cs : List Char) : Option (Token × List Char) :=
  match d.symbols.find? (d.starts cs) with
  | some t => some (t, (d.spell t).toList)
  | none => (atomAt? cs).map fun name => (.atom (String.ofList name), name)

theorem spell_ne_nil_of_mem_symbols {d : Dialect} :
    ∀ t ∈ d.symbols, (d.spell t).toList ≠ [] := by
  cases d <;> decide

theorem wordAt?_ne_nil {cs word : List Char} (h : wordAt? cs = some word) : word ≠ [] := by
  unfold wordAt? at h
  split at h
  · simp at h
  · simp [← Option.some.inj h]

theorem atomAt?_ne_nil {cs word : List Char} (h : atomAt? cs = some word) : word ≠ [] := by
  unfold atomAt? at h
  split at h
  · obtain ⟨_, _, rfl⟩ := Option.map_eq_some_iff.1 h
    simp
  · exact wordAt?_ne_nil h

theorem tokenAt?_ne_nil {d : Dialect} {cs word : List Char} {t : Token}
    (h : d.tokenAt? cs = some (t, word)) : word ≠ [] := by
  unfold tokenAt? at h
  split at h
  · next s hs =>
    simp only [Option.some.injEq, Prod.mk.injEq] at h
    exact h.2 ▸ spell_ne_nil_of_mem_symbols s (List.mem_of_find?_eq_some hs)
  · obtain ⟨name, hn, he⟩ := Option.map_eq_some_iff.1 h
    simp only [Prod.mk.injEq] at he
    exact he.2 ▸ atomAt?_ne_nil hn

/-- The tokens of the text from a mark on, and where reading stops. -/
def lexemes (d : Dialect) (m : Mark) : List Lexeme × Stop :=
  match _hrest : m.skipBlanks.rest with
  | [] => ([], .complete m.skipBlanks)
  | c :: cs =>
    match _htoken : d.tokenAt? (c :: cs) with
    | none => ([], .unknown m.skipBlanks)
    | some (t, word) =>
      let (ls, stop) := d.lexemes (m.skipBlanks.advance word.length)
      (⟨t, m.skipBlanks⟩ :: ls, stop)
termination_by m.rest.length
decreasing_by
  have hw := List.length_pos_iff.2 (tokenAt?_ne_nil _htoken)
  have hl := congrArg List.length _hrest
  simp only [Mark.advance, Mark.skipBlanks, List.length_drop, List.length_cons] at hl ⊢
  omega

end Dialect

end DefaultLogic
