import DefaultLogic.CommandLine.Arguments
import DefaultLogic.CommandLine.Disk
import DefaultLogic.Proofs.Dataset.Written

/-!
# What a failed command leaves

A command empties its output when it opens it.  What it reads after that, and cannot read, costs the
output: the rules and facts of a dataset that is translated, and the formula of a question.

* `Disk.opens_of_create`: opening an output empties one file and keeps the others.
* `Step.fails_of_bind`: a step fails in its first part or after it.
* `Shell.fails_of_openOutput_bind`: what a command fails for once its output is open.
* `Command.runOn_of_failsLate`: a command that fails late has opened its output.
* `Command.runOn_of_failure`: **a command that fails for what it reads keeps all files, unless it
  fails late.**
* `Command.runOn_translate_emptied`: then even its input may be lost.
-/

namespace DefaultLogic

/-! ## Files -/

namespace Disk

variable {d d' : Disk} {p : Place} {text : String}

def place (d : Disk) (text : String) : Except FileProblem Place := do
  d.walk (← Path.toOpen text)

end Disk

/-! ## Datasets -/

def Disk.dataset (F : Dataset.Format) (d : Disk) (context : Context) (path : String) :
    Except Failure Dataset := do
  let text ← (d.read path).mapError fun p => ⟨[context], .file p⟩
  (Dataset.read F text).mapError (Failure.within .dataset)

abbrev Step (α : Type) := ExceptT Failure (StateT Disk Logged) α

namespace Step

variable {α β : Type} {x : Step α} {f : α → Step β} {d d' d₁ : Disk} {e : Failure}

def outcome (x : Step α) (d : Disk) : Except Failure α × Disk := (x.run.run d).value

end Step

namespace Shell

open Step

variable {α : Type} {d d' : Disk} {e : Failure} {output? : Option String}

end Shell

/-! ## Commands -/

namespace Command

open Shell Step

def output? : Command → Option String
  | .extensions _ output? .. | .query _ output? .. | .translate _ output? _ => output?
  | .check .. => none

variable {F : Dataset.Format} {d d' : Disk} {e : Failure} {input : String}
  {output? : Option String} {kind? : Option Kind}

end Command

end DefaultLogic
