import DefaultLogic.Dataset.Regression
import DefaultLogic.Dataset.Written

/-!
# Commands

A command reads a dataset from a file and writes to a file or to the console.  It runs in any monad
that offers the operations of a `Shell`.
-/

namespace DefaultLogic

class Shell (m : Type → Type) where
  log : Event → m Unit
  /-- The full path of a file, or the path as it is given if there is no such file. -/
  resolve : String → m String
  /-- The text of a file; a directory and a file that is no text have an empty one. -/
  read : String → m (Except FileProblem String)
  /-- Makes an empty file. -/
  create : String → m (Except FileProblem Unit)
  /-- Writes to a file that was made before, or to the console. -/
  write : Option String → String → m (Except FileProblem Unit)

inductive Command where
  | extensions (input : String) (output? : Option String) (kind? : Option Kind)
      (dialect? : Option Dialect)
  | query (input : String) (output? : Option String) (kind? : Option Kind) (question : Question)
      (formula? : Option String) (enveloped : Bool)
  | check (input : String) (kind? : Option Kind)
  | translate (input : String) (output? : Option String) (dialect : Dialect)
  deriving DecidableEq

namespace Shell

/-- The text of a file with the given bytes, or none at all if they are no text. -/
def textOf (bytes : ByteArray) : String := (String.fromUTF8? bytes).getD ""

variable {m : Type → Type} [Monad m] [Shell m]

def attempt {α : Type} (x : Attempt α) : ExceptT Failure m α :=
  ExceptT.mk do
    x.run.events.forM log
    pure x.run.value

def report (e : Event) : ExceptT Failure m Unit := ExceptT.lift (log e)

/-- Does something with a file; a problem is a failure in the given contexts. -/
def withFile {α : Type} (contexts : List Context) (x : m (Except FileProblem α)) :
    ExceptT Failure m α :=
  ExceptT.mk do
    return (← x).mapError fun p => ⟨contexts, .file p⟩

variable (F : Dataset.Format)

def readDataset (context : Context) (path : String) : ExceptT Failure m Dataset := do
  let text ← withFile [context] (read path)
  (Dataset.read F text).mapError (Failure.within .dataset)

def readInput (path : String) : ExceptT Failure m Dataset := do
  report (.readingInput (← ExceptT.lift (resolve path)))
  readDataset F (.opening path) path

/-- The first theory of a dataset; the others are left alone. -/
def firstTheory (missing : Cause) (s : Dataset) : Except Failure Theory :=
  match s.theories with
  | [] => .error (.ofCause missing)
  | spec :: _ => spec.load s.dialect

/-- Chooses where to write; a file is emptied at once. -/
def openOutput : Option String → ExceptT Failure m Unit
  | none => report .outputToConsole
  | some path => do
    withFile [.creating path] (create path)
    report (.outputToFile (← ExceptT.lift (resolve path)))

def writeOutput (contexts : List Context) (output? : Option String) (text : String) :
    ExceptT Failure m Unit :=
  withFile contexts (write output? text)

end Shell

open Shell in
def Command.run {m : Type → Type} [Monad m] [Shell m] (F : Dataset.Format) :
    Command → ExceptT Failure m Unit
  | .extensions input output? kind? dialect? => do
    let s ← readInput F input
    let kind := kind?.getD s.kind
    let t ← firstTheory (.notASingleTheory 0) s
    report (.computing t.plain kind)
    openOutput output?
    let es ← attempt (ExceptT.lift (t.extensions Sat.solve kind))
    writeOutput [.writing .extensions] output?
      ((dialect?.getD s.dialect).writtenExtensions es)
    report (.foundExtensions es.length)
  | .query input output? kind? question formula? enveloped => do
    let s ← readInput F input
    let kind := kind?.getD s.kind
    let t ← firstTheory (.notASingleTheory 0) s
    report (.askingIn question t.plain kind)
    openOutput output?
    if enveloped then do
      let e ← attempt (ExceptT.lift (t.envelope kind s.dialect question.name formula?))
      writeOutput [] output? (F.write e.toJson ++ "\n")
    else do
      let reply ← attempt (t.ask kind s.dialect question formula?)
      writeOutput [.writing reply.product] output? (reply.written s.dialect)
  | .check input kind? => do
    report .checker
    report (.inputFile input)
    let s ← readDataset F (.checking input) input
    let s := { s with kind := kind?.getD s.kind }
    if s.action ≠ .test then report (.notATest s.action)
    let tally ← attempt s.check
    report (.checked tally.theories tally.expectations)
  | .translate input output? dialect => do
    let s ← readInput F input
    report (.translating s.dialect dialect)
    openOutput output?
    let t ← firstTheory .noTheory s
    writeOutput [.writing .dataset] output? (Dataset.written F dialect t.rules t.facts)

end DefaultLogic
