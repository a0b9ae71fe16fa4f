import DefaultLogic.Attempt
import DefaultLogic.Default.Theory
import DefaultLogic.Json.Basic

/-!
# Replies

What a question about a default theory is answered with, as a value, as text and as a document.
-/

namespace DefaultLogic

namespace Dialect

def writtenExtension (d : Dialect) (e : List Formula) : String := d.renderSet e ++ "\n"

/-- Extensions, one on each line, between brackets. -/
def writtenExtensions (d : Dialect) (es : List (List Formula)) : String :=
  "[\n" ++ String.join (es.map d.writtenExtension) ++ "]\n"

end Dialect

inductive Reply where
  | count (n : Nat)
  | extensions (es : List (List Formula))
  | truth (b : Bool)
  deriving DecidableEq

namespace Reply

def toJson (d : Dialect) : Reply → Json
  | .count n => .number (.ofNat n)
  | .extensions es => .array (es.map fun e => .texts (e.map d.renderFormula))
  | .truth b => .bool b

def product : Reply → Product
  | .count _ => .count
  | .extensions _ => .extensions
  | .truth _ => .status

def written (d : Dialect) : Reply → String
  | .count n => toString n ++ "\n"
  | .extensions es => d.writtenExtensions es
  | .truth b => if b then "YES\n" else "NO\n"

end Reply

namespace Theory

def formulaOf (d : Dialect) (q : Question) : Option String → Except Failure Formula
  | none => .error (.ofCause (.missingFormula q.name))
  | some text => d.readFormula text

/-- Answers a question.  Only the questions about entailment look at the formula. -/
def ask (t : Theory) (k : Kind) (d : Dialect) (q : Question) (formula? : Option String) :
    Attempt Reply := do
  Attempt.log (.asking q t.plain)
  match q with
  | .count => .count <$> (t.count Sat.solve k : Logged Nat)
  | .extensions => .extensions <$> (t.extensions Sat.solve k : Logged (List (List Formula)))
  | .entailment mode positive => do
    let f ← formulaOf d q formula?
    let b ← t.entails Sat.solve mode f k
    return .truth (b == positive)

theorem value_ask_entailment (t : Theory) (k : Kind) (d : Dialect) (mode : Mode) (positive : Bool)
    (formula? : Option String) :
    (t.ask k d (.entailment mode positive) formula?).run.value =
      formulaOf d (.entailment mode positive) formula? >>= fun f =>
        pure (.truth ((t.entails Sat.solve mode f k).value == positive)) := by
  rw [ask, Attempt.value_bind, Attempt.value_log]
  exact Attempt.value_bind _ _

end Theory

/-! ## Envelopes -/

/-- The document of a reply, or the message of a failure. -/
structure Envelope where
  failed : Bool
  value : Json

namespace Envelope

def ofResult (d : Dialect) : Except Failure Reply → Envelope
  | .ok reply => ⟨false, reply.toJson d⟩
  | .error failure => ⟨true, .string failure.message⟩

def toJson (e : Envelope) : Json :=
  .object [(some "error", .bool e.failed), (some "value", e.value)]

end Envelope

namespace Theory

def askNamed (t : Theory) (k : Kind) (d : Dialect) (name : String) (formula? : Option String) :
    Attempt Reply :=
  match Question.ofName? name with
  | some q => t.ask k d q formula?
  | none => Attempt.fail (.unknownQuestion name)

def envelope (t : Theory) (k : Kind) (d : Dialect) (name : String) (formula? : Option String) :
    Logged Envelope :=
  Envelope.ofResult d <$> (Attempt.within (.answering name) (t.askNamed k d name formula?)).run

end Theory

end DefaultLogic
