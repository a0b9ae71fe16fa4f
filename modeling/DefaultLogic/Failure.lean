import DefaultLogic.Dialect.Parser

/-!
# Failures

A failure has one cause and the contexts it arose in, the outermost first.  It is shown as the
chain of their messages.
-/

namespace DefaultLogic

inductive FileProblem where
  | missing
  | noDevice
  | notDirectory
  | directory
  | noSpace
  | nameTooLong
  | nullCharacter
  | other (text : String)
  deriving DecidableEq

def FileProblem.message : FileProblem → String
  | .missing => "No such file or directory (os error 2)"
  | .noDevice => "No such device or address (os error 6)"
  | .notDirectory => "Not a directory (os error 20)"
  | .directory => "Is a directory (os error 21)"
  | .noSpace => "No space left on device (os error 28)"
  | .nameTooLong => "File name too long (os error 36)"
  | .nullCharacter => "file name contained an unexpected NUL byte"
  | .other text => text

inductive Cause where
  | unreadable (e : ParseError)
  | illegalData (detail : String)
  | unknownAction (name : String)
  | unknownLogic (name : String)
  | unknownDialect (name : String)
  | unknownQuestion (name : String)
  | missingFormula (question : String)
  | expectedRule (text : String)
  | expectedFormula (text : String)
  | notASingleTheory (count : Nat)
  | noTheory
  | testFailure (theory expectation : String)
  | file (problem : FileProblem)
  deriving DecidableEq

def Cause.message : Cause → String
  | .unreadable e => e.message
  | .illegalData detail => "illegal data: " ++ detail
  | .unknownAction name => "unknown action \"" ++ name ++ "\""
  | .unknownLogic name => "unknown logic \"" ++ name ++ "\""
  | .unknownDialect name => "unknown syntax \"" ++ name ++ "\""
  | .unknownQuestion name => "unknown question \"" ++ name ++ "\""
  | .missingFormula question => "the question \"" ++ question ++ "\" requires a formula"
  | .expectedRule text => "expected a default rule, found \"" ++ text ++ "\""
  | .expectedFormula text => "expected a formula, found \"" ++ text ++ "\""
  | .notASingleTheory count => "expected exactly one theory to load, found " ++ toString count
  | .noTheory => "the dataset contains no theory"
  | .testFailure theory expectation => "test failed: theory " ++ theory ++ " should " ++ expectation
  | .file problem => problem.message

/-- What a command writes. -/
inductive Product where
  | extensions
  | count
  | status
  | dataset
  deriving DecidableEq

def Product.description : Product → String
  | .extensions => "an extension set"
  | .count => "an extension count"
  | .status => "an acceptance status"
  | .dataset => "a dataset"

/-- What was being done when a failure arose. -/
inductive Context where
  | parsing (text : String) (dialect : Dialect)
  | rule (index : Nat)
  | fact (index : Nat)
  | json
  | dataset
  | answering (question : String)
  | theory (index : Nat)
  | addition (index : Nat)
  | checking (path : String)
  | opening (path : String)
  | creating (path : String)
  | writing (product : Product)
  deriving DecidableEq

def Context.message : Context → String
  | .parsing text dialect => "while parsing \"" ++ text ++ "\" in the " ++ dialect.name ++ " syntax"
  | .rule index => "while reading the rule at index " ++ toString index
  | .fact index => "while reading the fact at index " ++ toString index
  | .json => "while parsing JSON content"
  | .dataset => "while reading the dataset"
  | .answering question => "while answering \"" ++ question ++ "\""
  | .theory index => "while testing the theory at index " ++ toString index
  | .addition index => "while testing the addition at index " ++ toString index
  | .checking path => "while opening file " ++ path
  | .opening path => "while opening file \"" ++ path ++ "\""
  | .creating path => "while creating file \"" ++ path ++ "\""
  | .writing product => "while writing " ++ product.description

structure Failure where
  contexts : List Context := []
  cause : Cause
  deriving DecidableEq

namespace Failure

def ofCause (cause : Cause) : Failure := ⟨[], cause⟩

/-- Puts a failure in a further, outer context. -/
def within (context : Context) (f : Failure) : Failure :=
  { f with contexts := context :: f.contexts }

/-- The messages of the contexts, then that of the cause. -/
def chain (f : Failure) : List String := f.contexts.map Context.message ++ [f.cause.message]

def message (f : Failure) : String := ": ".intercalate f.chain

end Failure

namespace Dialect

def read (d : Dialect) (text : String) : Except Failure Statement :=
  (d.parse text).mapError fun e => (Failure.ofCause (.unreadable e)).within (.parsing text d)

def readFormula (d : Dialect) (text : String) : Except Failure Formula := do
  match ← d.read text with
  | .formula f => .ok f
  | .rule _ => .error (.ofCause (.expectedFormula text))

def readRule (d : Dialect) (text : String) : Except Failure Rule := do
  match ← d.read text with
  | .rule r => .ok r
  | .formula _ => .error (.ofCause (.expectedRule text))

end Dialect

end DefaultLogic
