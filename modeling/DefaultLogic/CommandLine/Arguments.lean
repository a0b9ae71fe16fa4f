import DefaultLogic.CommandLine.Command

/-!
# Arguments

The words of a command line are the name of a command and parameters, some of which are common to
all commands and may also come before the name.  The words are read from left to right until a
request for help or a word that has no place; what they ask for is checked after that.
-/

namespace DefaultLogic.CommandLine

inductive Parameter where
  | input
  | output
  | logic
  | dialect
  | question
  | formula
  | json
  | threshold
  deriving DecidableEq

namespace Parameter

def name : Parameter → String
  | .input => "input"
  | .output => "output"
  | .logic => "logic"
  | .dialect => "syntax"
  | .question => "question"
  | .formula => "formula"
  | .json => "json"
  | .threshold => "logging-level"

def letter? : Parameter → Option Char
  | .input => some 'i'
  | .output => some 'o'
  | .logic => some 'l'
  | .dialect => some 's'
  | .question => some 'q'
  | .formula => some 'f'
  | .json | .threshold => none

/-- Whether a parameter is given without a value. -/
def isFlag : Parameter → Bool
  | .json => true
  | _ => false

end Parameter

inductive Verb where
  | extensions
  | query
  | check
  | translate
  deriving DecidableEq

namespace Verb

def all : List Verb := [.extensions, .query, .check, .translate]

def name : Verb → String
  | .extensions => "extensions"
  | .query => "query"
  | .check => "check"
  | .translate => "translate"

def ofName? (name : String) : Option Verb := all.find? (·.name = name)

def parameters : Verb → List Parameter
  | .extensions => [.input, .output, .logic, .dialect, .threshold]
  | .query => [.input, .output, .logic, .question, .formula, .json, .threshold]
  | .check => [.input, .logic, .threshold]
  | .translate => [.input, .output, .dialect, .threshold]

end Verb

/-- Why no command is run. -/
inductive Notice where
  | help
  | version
  | refused
  deriving DecidableEq

/-! ## Words -/

inductive Word where
  /-- Two dashes, which only words without a place could follow. -/
  | terminator
  | long (name : String) (value? : Option String)
  | short (letter : Char) (value? : Option String)
  | text
  deriving DecidableEq

namespace Word

/-- A value joined to a name by any number of equality signs. -/
def joined (cs : List Char) : String := String.ofList (cs.dropWhile (· = '='))

def ofString (word : String) : Word :=
  match word.toList with
  | ['-', '-'] => .terminator
  | '-' :: '-' :: cs =>
    let cs := cs.dropWhile (· = '-')
    let name := cs.takeWhile (· ≠ '=')
    .long (String.ofList name)
      (if '=' ∈ cs then some (joined (cs.drop name.length)) else none)
  | '-' :: c :: cs => .short c (if cs.isEmpty then none else some (joined cs))
  | _ => .text

end Word

/-! ## Places -/

/-- What may be given at some place of the command line. -/
structure Place where
  parameters : List Parameter
  hasVersion : Bool
  isCommand : String → Bool

namespace Place

/-- Before the name of the command. -/
def front : Place where
  parameters := [.threshold]
  hasVersion := true
  isCommand w := (Verb.ofName? w).isSome || w = "help"

/-- After the name of the command. -/
def after (v : Verb) : Place where
  parameters := v.parameters
  hasVersion := false
  isCommand _ := false

def find (p : Place) (named : Parameter → Bool) : Except Notice Parameter :=
  match p.parameters.find? named with
  | some x => .ok x
  | none => .error .refused

/-- The parameter that a word gives, with the value joined to it; a text gives none. -/
def parameter? (p : Place) : Word → Except Notice (Option (Parameter × Option String))
  | .terminator | .text => .ok none
  | .long name value? =>
    if name = "help" then .error .help
    else if p.hasVersion && name = "version" then .error .version
    else do return some (← p.find (·.name = name), value?)
  | .short letter value? =>
    if letter = 'h' then .error .help
    else if p.hasVersion && letter = 'V' then .error .version
    else do return some (← p.find (·.letter? = some letter), value?)

end Place

abbrev Given := Parameter × Option String

/-- The value of a parameter and the words after it.  A parameter without a joined value takes the
next word, unless that is no text. -/
def valueAndRest (x : Parameter) (joined? : Option String) (ws : List String) :
    Option String × List String :=
  if x.isFlag then (none, ws)
  else
    match joined?, ws with
    | none, v :: vs => if Word.ofString v = .text then (some v, vs) else (none, v :: vs)
    | _, ws => (joined?, ws)

theorem length_valueAndRest_le (x : Parameter) (joined? : Option String) (ws : List String) :
    (valueAndRest x joined? ws).2.length ≤ ws.length := by
  unfold valueAndRest
  split
  · exact Nat.le_refl _
  · split
    · split <;> simp
    · exact Nat.le_refl _

/-- Reads the parameters up to the name of a command, and returns the words from there on. -/
def scan (p : Place) : List String → Except Notice (List Given × List String)
  | [] => .ok ([], [])
  | w :: ws => do
    match ← p.parameter? (Word.ofString w) with
    | some (x, joined?) => do
      let next := valueAndRest x joined? ws
      let (given, rest) ← scan p next.2
      return ((x, next.1) :: given, rest)
    | none =>
      if p.isCommand w then return ([], w :: ws)
      else if w = "--" && ws.isEmpty then return ([], [])
      else .error .refused
termination_by ws => ws.length
decreasing_by exact Nat.lt_succ_of_le (length_valueAndRest_le ..)

/-! ## Values -/

def uses (given : List Given) (x : Parameter) : List (Option String) :=
  (given.filter (·.1 = x)).map Prod.snd

def optional {α : Type} (given : List Given) (x : Parameter) (read : String → Option α) :
    Except Notice (Option α) :=
  match uses given x with
  | [] => .ok none
  | [some v] =>
    match read v with
    | some a => .ok (some a)
    | none => .error .refused
  | _ => .error .refused

def required {α : Type} (given : List Given) (x : Parameter) (read : String → Option α) :
    Except Notice α := do
  match ← optional given x read with
  | some a => .ok a
  | none => .error .refused

def flag (given : List Given) (x : Parameter) : Except Notice Bool :=
  match uses given x with
  | [] => .ok false
  | [_] => .ok true
  | _ => .error .refused

/-- The threshold has a default, which also stands in for a missing value. -/
def threshold (given : List Given) : Except Notice (Option Threshold) :=
  match uses given .threshold with
  | [none] => .ok (some default)
  | _ => optional given .threshold Threshold.ofName?

/-! ## Invocations -/

structure Invocation where
  command : Command
  threshold : Threshold
  deriving DecidableEq

def command (v : Verb) (given : List Given) : Except Notice Command := do
  let input ← required given .input some
  let output? ← optional given .output some
  let kind? ← optional given .logic Kind.ofName?
  match v with
  | .extensions =>
    return .extensions input output? kind? (← optional given .dialect Dialect.ofName?)
  | .query =>
    return .query input output? kind? (← required given .question Question.ofName?)
      (← optional given .formula some) (← flag given .json)
  | .check => return .check input kind?
  | .translate => return .translate input output? (← required given .dialect Dialect.ofName?)

def help : List String → Notice
  | [] => .help
  | [w] => if Place.front.isCommand w then .help else .refused
  | _ => .refused

/-- Reads the words of a command line.  A threshold after the name of the command counts more than
one before it. -/
def invocation (words : List String) : Except Notice Invocation := do
  let (front, rest) ← scan .front words
  match rest with
  | [] => .error .refused
  | name :: words =>
    match Verb.ofName? name with
    | none => .error (help words)
    | some v =>
      let (given, _) ← scan (.after v) words
      let c ← command v given
      let inner? ← threshold given
      let outer? ← threshold front
      return ⟨c, (inner?.orElse fun _ => outer?).getD default⟩

end DefaultLogic.CommandLine
