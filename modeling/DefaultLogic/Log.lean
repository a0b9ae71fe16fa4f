import DefaultLogic.Dataset.Action
import DefaultLogic.Default.Kind
import DefaultLogic.Dialect.Basic
import DefaultLogic.Query.Question
import DefaultLogic.Text.Quoted

/-!
# Logs

What a computation does besides its result is a list of events, each with a level.  `Logged` is
the monad of computations that keep such a list; `value` forgets it.
-/

namespace DefaultLogic

inductive Level where
  | error
  | warn
  | info
  | debug
  deriving DecidableEq

namespace Level

def name : Level → String
  | .error => "ERROR"
  | .warn => "WARN"
  | .info => "INFO"
  | .debug => "DEBUG"

/-- The more verbose a level, the larger its rank. -/
def rank : Level → Nat
  | .error => 1
  | .warn => 2
  | .info => 3
  | .debug => 4

end Level

/-- The least severe level that is shown, if any. -/
inductive Threshold where
  | off
  | upTo (level : Level)
  deriving DecidableEq

namespace Threshold

instance : Inhabited Threshold := ⟨.upTo .info⟩

/-- Nothing is logged below the level of debugging, so `trace` shows as much as `debug`. -/
def ofName? : String → Option Threshold
  | "off" => some .off
  | "error" => some (.upTo .error)
  | "warn" => some (.upTo .warn)
  | "info" => some (.upTo .info)
  | "debug" | "trace" => some (.upTo .debug)
  | _ => none

def admits : Threshold → Level → Bool
  | .off, _ => false
  | .upTo limit, level => level.rank ≤ limit.rank

end Threshold

inductive Event where
  | started
  | noReply
  | compiling (formulas : Nat) (inconsistent : List String)
  | candidate (inconsistent : List String)
  | found (rules : List Nat)
  | classicalExtensions
  | asking (question : Question) (theory : String)
  | performing (action : Action) (theories : Nat) (kind : Kind) (dialect : Dialect)
  | loaded (rules facts : Nat)
  | testing (theory : String)
  | readingInput (path : String)
  | outputToConsole
  | outputToFile (path : String)
  | computing (theory : String) (kind : Kind)
  | foundExtensions (count : Nat)
  | askingIn (question : Question) (theory : String) (kind : Kind)
  | translating (source target : Dialect)
  | checker
  | inputFile (path : String)
  | notATest (action : Action)
  | checked (theories expectations : Nat)
  deriving DecidableEq

namespace Event

def level : Event → Level
  | .noReply | .notATest _ => .warn
  | .compiling .. | .candidate _ | .found _ | .classicalExtensions | .asking .. => .debug
  | _ => .info

def quotedList (names : List String) : String := Text.bracketed (names.map Text.quoted)

def message : Event → String
  | .started => "spdl 0.1.0"
  | .noReply => "the SAT solver did not reply (maybe a timeout was reached ?); " ++
      "considering the theory as unsatisfiable"
  | .compiling formulas inconsistent => "compiling a paraconsistent theory of " ++
      toString formulas ++ " formula(s) with inconsistent atoms " ++ quotedList inconsistent
  | .candidate inconsistent =>
      "looking for extensions with inconsistent atoms " ++ quotedList inconsistent
  | .found rules =>
      "found an extension generated by rules " ++ Text.bracketed (rules.map toString)
  | .classicalExtensions => "the theory has classical extensions"
  | .asking question theory => "asking " ++ question.name ++ " for theory " ++ theory
  | .performing action theories kind dialect => "performing action " ++ action.name ++
      " on a dataset of " ++ toString theories ++ " theories (logic " ++ kind.name ++ ", " ++
      dialect.name ++ " syntax)"
  | .loaded rules facts => "loaded a theory made of " ++ toString rules ++ " rule(s) and " ++
      toString facts ++ " fact(s)"
  | .testing theory => "testing theory " ++ theory
  | .readingInput path => "reading input file " ++ path
  | .outputToConsole => "setting output to STDOUT"
  | .outputToFile path => "setting output file to " ++ path
  | .computing theory kind =>
      "computing the extensions of " ++ theory ++ " in logic " ++ kind.name
  | .foundExtensions count => "found " ++ toString count ++ " extension(s)"
  | .askingIn question theory kind =>
      "asking " ++ question.name ++ " for theory " ++ theory ++ " in logic " ++ kind.name
  | .translating source target =>
      "translating from the " ++ source.name ++ " syntax to the " ++ target.name ++ " syntax"
  | .checker => "executing dataset checker"
  | .inputFile path => "input file is " ++ path
  | .notATest action =>
      "dataset action is \"" ++ action.name ++ "\"; its theories are checked anyway"
  | .checked theories expectations => "checked " ++ toString theories ++ " theory(ies) against " ++
      toString expectations ++ " expectation(s)"

end Event

/-- A computation with its events, the first one first. -/
structure Logged (α : Type) where
  value : α
  events : List Event

namespace Logged

instance : Monad Logged where
  pure a := ⟨a, []⟩
  bind x f :=
    let y := f x.value
    ⟨y.value, x.events ++ y.events⟩

def log (e : Event) : Logged Unit := ⟨(), [e]⟩

@[ext] theorem ext {α : Type} {x y : Logged α} (hv : x.value = y.value)
    (he : x.events = y.events) : x = y := by
  cases x; cases y; simp_all

@[simp] theorem value_pure {α : Type} (a : α) : (pure a : Logged α).value = a := rfl

@[simp] theorem events_pure {α : Type} (a : α) : (pure a : Logged α).events = [] := rfl

@[simp] theorem value_bind {α β : Type} (x : Logged α) (f : α → Logged β) :
    (x >>= f).value = (f x.value).value := rfl

@[simp] theorem events_bind {α β : Type} (x : Logged α) (f : α → Logged β) :
    (x >>= f).events = x.events ++ (f x.value).events := rfl

@[simp] theorem value_log (e : Event) : (log e).value = () := rfl

@[simp] theorem events_log (e : Event) : (log e).events = [e] := rfl

instance : LawfulMonad Logged := LawfulMonad.mk' Logged
  (by intro α x; apply Logged.ext <;> simp [Functor.map])
  (by intro α β a f; apply Logged.ext <;> simp)
  (by intro α β γ x f g; apply Logged.ext <;> simp)

@[simp] theorem value_map {α β : Type} (f : α → β) (x : Logged α) :
    (f <$> x).value = f x.value := by
  simp [← bind_pure_comp]

end Logged

class MonadLog (M : Type → Type) where
  log : Event → M Unit

instance : MonadLog Logged := ⟨Logged.log⟩

end DefaultLogic
