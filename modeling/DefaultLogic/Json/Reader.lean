import DefaultLogic.Json.Basic

/-!
# Reading JSON

The strict grammar: no comments, no trailing commas, no raw control characters in strings, nothing
but blanks around the document.  Each reader returns what it has read and the rest of the text.
-/

namespace DefaultLogic.Json

/-- A part of a string: a character, or one half of a surrogate pair. -/
inductive Piece where
  | char (c : Char)
  | surrogate (code : Nat)
  deriving DecidableEq

/-- The text of the pieces, if all surrogates are paired. -/
def join : List Piece → Option (List Char)
  | [] => some []
  | .char c :: ps => (join ps).map (c :: ·)
  | .surrogate h :: .surrogate l :: ps =>
    if h < 0xdc00 && 0xdc00 ≤ l then
      (join ps).map (Char.ofNat (0x10000 + (h - 0xd800) * 0x400 + (l - 0xdc00)) :: ·)
    else none
  | .surrogate _ :: _ => none

def hexValue? (c : Char) : Option Nat :=
  if c.isDigit then some (c.toNat - '0'.toNat)
  else if 'a' ≤ c && c ≤ 'f' then some (c.toNat - 'a'.toNat + 10)
  else if 'A' ≤ c && c ≤ 'F' then some (c.toNat - 'A'.toNat + 10)
  else none

def codePiece (code : Nat) : Piece :=
  if 0xd800 ≤ code && code < 0xe000 then .surrogate code else .char (Char.ofNat code)

def unescape? : Char → Option Char
  | '"' => some '"'
  | '\\' => some '\\'
  | '/' => some '/'
  | 'b' => some '\x08'
  | 'f' => some '\x0c'
  | 'n' => some '\n'
  | 'r' => some '\r'
  | 't' => some '\t'
  | _ => none

abbrev Rest (cs : List Char) := { r : List Char // r.length < cs.length }

def pieces : (cs : List Char) → Option (List Piece × Rest cs)
  | [] => none
  | '"' :: cs => some ([], ⟨cs, by simp⟩)
  | '\\' :: 'u' :: a :: b :: c :: d :: cs => do
    let code := (((← hexValue? a) * 16 + (← hexValue? b)) * 16 + (← hexValue? c)) * 16 +
      (← hexValue? d)
    let (ps, r) ← pieces cs
    some (codePiece code :: ps, ⟨r.1, by have := r.2; simp only [List.length_cons]; omega⟩)
  | '\\' :: c :: cs => do
    let c ← unescape? c
    let (ps, r) ← pieces cs
    some (.char c :: ps, ⟨r.1, by have := r.2; simp only [List.length_cons]; omega⟩)
  | c :: cs => do
    if c.toNat < 0x20 || c = '\\' then none
    let (ps, r) ← pieces cs
    some (.char c :: ps, ⟨r.1, by have := r.2; simp only [List.length_cons]; omega⟩)

def isSpace (c : Char) : Bool := c = ' ' || c = '\t' || c = '\n' || c = '\r'

def skipSpaces (cs : List Char) : List Char := cs.dropWhile isSpace

theorem length_dropWhile_le {α : Type} (p : α → Bool) (xs : List α) :
    (xs.dropWhile p).length ≤ xs.length :=
  (List.dropWhile_sublist p).length_le

theorem length_skipSpaces_le (cs : List Char) : (skipSpaces cs).length ≤ cs.length :=
  length_dropWhile_le ..

def digits (cs : List Char) : Option (List Char × Rest cs) :=
  match h : cs.takeWhile Char.isDigit with
  | [] => none
  | d :: ds => some (d :: ds, ⟨cs.dropWhile Char.isDigit, by
      have := congrArg List.length (List.takeWhile_append_dropWhile (p := Char.isDigit) (l := cs))
      simp only [h, List.length_append, List.length_cons] at this
      omega⟩)

def digitsValue (ds : List Char) : Nat := ds.foldl (fun m c => 10 * m + (c.toNat - '0'.toNat)) 0

/-- Reads the digits before the point; a zero stands alone. -/
def whole (cs : List Char) : Option (Nat × Rest cs) :=
  match cs with
  | '0' :: cs => some (0, ⟨cs, by simp⟩)
  | cs => do
    let (ds, r) ← digits cs
    some (digitsValue ds, r)

def fraction (cs : List Char) :
    Option (Option (List Char) × { r : List Char // r.length ≤ cs.length }) :=
  match cs with
  | '.' :: cs => do
    let (ds, r) ← digits cs
    some (some ds, ⟨r.1, by have := r.2; simp only [List.length_cons]; omega⟩)
  | cs => some (none, ⟨cs, Nat.le_refl _⟩)

def exponent (cs : List Char) :
    Option (Option Int × { r : List Char // r.length ≤ cs.length }) :=
  match cs with
  | [] => some (none, ⟨[], Nat.le_refl _⟩)
  | e :: cs =>
    if e = 'e' || e = 'E' then
      match cs with
      | '-' :: cs => do
        let (ds, r) ← digits cs
        some (some (-(digitsValue ds : Int)),
          ⟨r.1, by have := r.2; simp only [List.length_cons]; omega⟩)
      | '+' :: cs => do
        let (ds, r) ← digits cs
        some (some (digitsValue ds), ⟨r.1, by have := r.2; simp only [List.length_cons]; omega⟩)
      | cs => do
        let (ds, r) ← digits cs
        some (some (digitsValue ds), ⟨r.1, by have := r.2; simp only [List.length_cons]; omega⟩)
    else some (none, ⟨e :: cs, Nat.le_refl _⟩)

def magnitude (negative : Bool) (cs : List Char) : Option (Numeral × Rest cs) := do
  let (n, r₁) ← whole cs
  let (f?, r₂) ← fraction r₁.1
  let (e?, r₃) ← exponent r₂.1
  some (⟨negative, n, f?, e?⟩, ⟨r₃.1, by have := r₁.2; have := r₂.2; have := r₃.2; omega⟩)

theorem shorter {cs t r : List Char} (h : skipSpaces cs = t) (hr : r.length < t.length) :
    r.length < cs.length :=
  Nat.lt_of_lt_of_le hr (h ▸ length_skipSpaces_le cs)

theorem shorter_cons {cs t r : List Char} {c : Char} (h : skipSpaces cs = c :: t)
    (hr : r.length < t.length) : r.length < cs.length :=
  shorter h (Nat.lt_succ_of_lt hr)

theorem lt_cons {t : List Char} {c : Char} : t.length < (c :: t).length := Nat.lt_succ_self _

mutual

/-- Reads a document, which may have spaces before it. -/
def value (cs : List Char) : Option (Json × Rest cs) :=
  match h : skipSpaces cs with
  | 'n' :: 'u' :: 'l' :: 'l' :: r =>
    some (.null, ⟨r, shorter h (by simp only [List.length_cons]; omega)⟩)
  | 't' :: 'r' :: 'u' :: 'e' :: r =>
    some (.bool true, ⟨r, shorter h (by simp only [List.length_cons]; omega)⟩)
  | 'f' :: 'a' :: 'l' :: 's' :: 'e' :: r =>
    some (.bool false, ⟨r, shorter h (by simp only [List.length_cons]; omega)⟩)
  | '"' :: r => do
    let (ps, r') ← pieces r
    let s := match join ps with
      | some s => Json.string (String.ofList s)
      | none => .unpaired
    some (s, ⟨r'.1, shorter_cons h r'.2⟩)
  | '[' :: r => do
    let (es, r') ← elements true r
    some (.array es, ⟨r'.1, shorter_cons h r'.2⟩)
  | '\x7b' :: r => do
    let (ms, r') ← members true r
    some (.object ms, ⟨r'.1, shorter_cons h r'.2⟩)
  | '-' :: r => do
    let (n, r') ← magnitude true r
    some (.number n, ⟨r'.1, shorter_cons h r'.2⟩)
  | r => do
    let (n, r') ← magnitude false r
    some (.number n, ⟨r'.1, shorter h r'.2⟩)
termination_by (cs.length, 0)
decreasing_by all_goals exact Prod.Lex.left _ _ (shorter h lt_cons)

/-- Reads the elements of an array up to its end; only the first may be missing. -/
def elements (first : Bool) (cs : List Char) : Option (List Json × Rest cs) :=
  match h : skipSpaces cs with
  | ']' :: r => if first then some ([], ⟨r, shorter h lt_cons⟩) else none
  | _ => do
    let (e, r₁) ← value cs
    match h₁ : skipSpaces r₁.1 with
    | ',' :: r => do
      let (es, r₂) ← elements false r
      some (e :: es, ⟨r₂.1, Nat.lt_trans (shorter_cons h₁ r₂.2) r₁.2⟩)
    | ']' :: r => some ([e], ⟨r, Nat.lt_trans (shorter h₁ lt_cons) r₁.2⟩)
    | _ => none
termination_by (cs.length, 1)
decreasing_by
  · exact Prod.Lex.right _ Nat.zero_lt_one
  · exact Prod.Lex.left _ _ (Nat.lt_trans (shorter h₁ lt_cons) r₁.2)

def members (first : Bool) (cs : List Char) :
    Option (List (Option String × Json) × Rest cs) :=
  match h : skipSpaces cs with
  | '\x7d' :: r => if first then some ([], ⟨r, shorter h lt_cons⟩) else none
  | '"' :: r => do
    let (ps, r₁) ← pieces r
    let key := (join ps).map String.ofList
    match h₁ : skipSpaces r₁.1 with
    | ':' :: r => do
      let (v, r₂) ← value r
      match h₂ : skipSpaces r₂.1 with
      | ',' :: r => do
        let (ms, r₃) ← members false r
        some ((key, v) :: ms, ⟨r₃.1, shorter_cons h (Nat.lt_trans (shorter_cons h₁
          (Nat.lt_trans (shorter_cons h₂ r₃.2) r₂.2)) r₁.2)⟩)
      | '\x7d' :: r => some ([(key, v)], ⟨r, shorter_cons h (Nat.lt_trans (shorter_cons h₁
          (Nat.lt_trans (shorter h₂ lt_cons) r₂.2)) r₁.2)⟩)
      | _ => none
    | _ => none
  | _ => none
termination_by (cs.length, 0)
decreasing_by
  · exact Prod.Lex.left _ _ (shorter_cons h (Nat.lt_trans (shorter h₁ lt_cons) r₁.2))
  · exact Prod.Lex.left _ _ (shorter_cons h (Nat.lt_trans (shorter_cons h₁
      (Nat.lt_trans (shorter h₂ lt_cons) r₂.2)) r₁.2))

end

def parse? (text : String) : Option Json := do
  let (j, r) ← value text.toList
  if (skipSpaces r.1).isEmpty then some j else none

end DefaultLogic.Json
