import DefaultLogic.CommandLine.Arguments
import DefaultLogic.Dataset.Json

/-!
# The program

Runs a command of the command line on the files of the system.
-/

namespace DefaultLogic

/-- Commands that run on the system, with the least severe level they show. -/
abbrev Console := ReaderT Threshold IO

namespace Console

/-- The system numbers its errors; the number may come negated. -/
def problem (e : IO.Error) : FileProblem :=
  match e with
  | .noFileOrDirectory .. => .missing
  | .inappropriateType _ code _ | .invalidArgument _ code _ | .resourceExhausted _ code _
  | .noSuchThing _ code _ =>
    match (min code (0 - code)).toNat with
    | 6 => .noDevice
    | 20 => .notDirectory
    | 21 => .directory
    | 28 => .noSpace
    | 36 => .nameTooLong
    | _ => .other (toString e)
  | e => .other (toString e)

def tryFile {α : Type} (x : IO α) : Console (Except FileProblem α) := do
  try return .ok (← x)
  catch e => return .error (problem e)

def logLine (level : Level) (message : String) : Console Unit := do
  if (← read).admits level then
    IO.eprintln ("[" ++ level.name ++ "] " ++ message)

instance : Shell Console where
  log e := logLine e.level e.message
  resolve path := do
    match ← tryFile (IO.FS.realPath path) with
    | .ok full => return full.toString
    | .error _ => return path
  read path := do
    match ← tryFile (IO.FS.readBinFile path) with
    | .ok bytes => return .ok (Shell.textOf bytes)
    | .error .directory => return .ok ""
    | .error p => return .error p
  create path := tryFile (IO.FS.writeFile path "")
  write
    | none, text => tryFile do
      (← IO.getStdout).putStr text
    | some path, text => tryFile do
      (← IO.FS.Handle.mk path .append).putStr text

end Console

def usage : String :=
  "spdl 0.1.0\n" ++
  "Computes the extensions of classical and paraconsistent default theories.\n\n" ++
  "USAGE:\n" ++
  "    spdl [--logging-level LEVEL] COMMAND [PARAMETERS]\n\n" ++
  "COMMANDS:\n" ++
  "    extensions  -i FILE [-o FILE] [-l LOGIC] [-s SYNTAX]\n" ++
  "    query       -i FILE [-o FILE] [-l LOGIC] -q QUESTION [-f FORMULA] [--json]\n" ++
  "    check       -i FILE [-l LOGIC]\n" ++
  "    translate   -i FILE [-o FILE] -s SYNTAX\n"

def Console.execute (c : Command) : Console UInt32 := do
  Shell.log .started
  match ← (c.run (m := Console) .json).run with
  | .ok () => return 0
  | .error failure => do
    failure.chain.forM (Console.logLine .error)
    return 1

end DefaultLogic

open DefaultLogic in
def main (args : List String) : IO UInt32 := do
  match CommandLine.invocation args with
  | .error .help => do
    IO.print usage
    return 0
  | .error .version => do
    IO.println Event.started.message
    return 0
  | .error .refused => do
    IO.eprint usage
    return 1
  | .ok i => (Console.execute i.command).run i.threshold
