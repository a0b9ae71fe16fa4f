/-!
# JSON documents

Strings are kept decoded.  A string with an unpaired surrogate escape is no text, so it is a
document of its own kind, and a key may be such a string too.  Numbers keep the digits of their
fraction and their exponent.
-/

namespace DefaultLogic

/-- A number as it is written: sign, whole part, digits after the point, exponent. -/
structure Numeral where
  negative : Bool := false
  whole : Nat
  fraction? : Option (List Char) := none
  exponent? : Option Int := none
  deriving DecidableEq

inductive Json where
  | null
  | bool (b : Bool)
  | number (n : Numeral)
  | string (s : String)
  | unpaired
  | array (elements : List Json)
  | object (members : List (Option String × Json))

namespace Numeral

def ofNat (n : Nat) : Numeral := { whole := n }

def toNat? (n : Numeral) : Option Nat :=
  if n.negative || n.fraction?.isSome || n.exponent?.isSome then none else some n.whole

/-- Appends digits to a number as long as it has at most 64 bits; the result comes with the number
of digits taken. -/
def take : Nat → List Char → Nat × Nat
  | m, [] => (m, 0)
  | m, c :: cs =>
    let n := 10 * m + (c.toNat - '0'.toNat)
    if n < UInt64.size then
      let (r, k) := take n cs
      (r, k + 1)
    else (m, 0)

/-- The number without its sign as a significand and a power of ten.  Digits that the significand
has no room for are dropped, those of the whole part and those of the fraction each from the first
that does not fit. -/
def scaled (n : Numeral) : Nat × Int :=
  let digits := Nat.toDigits 10 n.whole
  let (m, k) := take 0 digits
  let (m, l) := take m (n.fraction?.getD [])
  (m, (digits.length - k : Nat) - (l : Int) + n.exponent?.getD 0)

/-- The nearest number with at most 53 significant bits; of two the one with an even last bit. -/
def nearest (n : Nat) : Nat :=
  let unit := Nat.pow 2 (n.log2 - 52)
  let q := n / unit
  let r := n % unit
  if 2 * r < unit || (2 * r = unit && q % 2 = 0) then q * unit else (q + 1) * unit

/-- The least magnitude that rounds to no finite double, halfway between the largest one and the
next power of two. -/
def overflow : Nat := (Nat.pow 2 54 - 1) * Nat.pow 2 970

/-- Whether the product of significand and power of ten, both as doubles, is finite.  There are
doubles for the powers of ten up to 308. -/
def isFinite (n : Numeral) : Bool :=
  match n.scaled with
  | (0, _) | (_, .negSucc _) => true
  | (m, .ofNat e) => e ≤ 308 && nearest m * nearest (Nat.pow 10 e) < overflow

def render (n : Numeral) : String :=
  (if n.negative then "-" else "") ++ toString n.whole ++
    (match n.fraction? with
      | none => ""
      | some ds => "." ++ String.ofList ds) ++
    match n.exponent? with
    | none => ""
    | some e => "e" ++ toString e

end Numeral

namespace Json

instance : Inhabited Json := ⟨.null⟩

def hexDigit (n : Nat) : Char := (Nat.digitChar (n % 16))

/-- Quotes, backslashes and control characters are escaped, all else stands for itself. -/
def escape (c : Char) : List Char :=
  match c with
  | '"' => ['\\', '"']
  | '\\' => ['\\', '\\']
  | '\x08' => ['\\', 'b']
  | '\t' => ['\\', 't']
  | '\n' => ['\\', 'n']
  | '\x0c' => ['\\', 'f']
  | '\r' => ['\\', 'r']
  | c =>
    if c.toNat < 0x20 then ['\\', 'u', '0', '0', hexDigit (c.toNat / 16), hexDigit c.toNat]
    else [c]

def quote (s : String) : String := "\"" ++ String.ofList (s.toList.flatMap escape) ++ "\""

def renderKey : Option String → String
  | some s => quote s
  | none => "\"\\ud800\""

mutual

def render : Json → String
  | .null => "null"
  | .bool b => if b then "true" else "false"
  | .number n => n.render
  | .string s => quote s
  | .unpaired => renderKey none
  | .array es => "[" ++ ",".intercalate (renderEach es) ++ "]"
  | .object ms => "\x7b" ++ ",".intercalate (renderMembers ms) ++ "\x7d"

private def renderEach : List Json → List String
  | [] => []
  | e :: es => e.render :: renderEach es

private def renderMembers : List (Option String × Json) → List String
  | [] => []
  | (k, v) :: ms => (renderKey k ++ ":" ++ v.render) :: renderMembers ms

end

private theorem renderEach_eq_map (es : List Json) : renderEach es = es.map render := by
  induction es with
  | nil => rfl
  | cons e es ih => simp [renderEach, ih]

private theorem renderMembers_eq_map (ms : List (Option String × Json)) :
    renderMembers ms = ms.map fun m => renderKey m.1 ++ ":" ++ m.2.render := by
  induction ms with
  | nil => rfl
  | cons m ms ih => simp [renderMembers, ih]

theorem render_array (es : List Json) :
    (array es).render = "[" ++ ",".intercalate (es.map render) ++ "]" := by
  rw [render, renderEach_eq_map]

theorem render_object (ms : List (Option String × Json)) :
    (object ms).render =
      "\x7b" ++ ",".intercalate (ms.map fun m => renderKey m.1 ++ ":" ++ m.2.render) ++ "\x7d" := by
  rw [render, renderMembers_eq_map]

mutual

/-- Whether a document can be read in full with the given number of nestings left: all strings are
texts, all numbers have finite doubles and no part is nested too deeply. -/
def readable (nestings : Nat) : Json → Bool
  | .null | .bool _ | .string _ => true
  | .number n => n.isFinite
  | .unpaired => false
  | .array es => 0 < nestings && readableEach (nestings - 1) es
  | .object ms => 0 < nestings && readableMembers (nestings - 1) ms

private def readableEach (nestings : Nat) : List Json → Bool
  | [] => true
  | e :: es => e.readable nestings && readableEach nestings es

private def readableMembers (nestings : Nat) : List (Option String × Json) → Bool
  | [] => true
  | (k, v) :: ms => k.isSome && v.readable nestings && readableMembers nestings ms

end

private theorem readableEach_eq_all (nestings : Nat) (es : List Json) :
    readableEach nestings es = es.all (readable nestings) := by
  induction es with
  | nil => rfl
  | cons e es ih => simp [readableEach, ih]

theorem readable_array (nestings : Nat) (es : List Json) :
    (array es).readable nestings = (0 < nestings && es.all (readable (nestings - 1))) := by
  rw [readable, readableEach_eq_all]

def texts (ss : List String) : Json := .array (ss.map .string)

end Json

end DefaultLogic
