import DefaultLogic.CommandLine.Command
import DefaultLogic.CommandLine.Path

/-!
# Disks

A model of the surroundings of a command: what there is on a disk, the directory that relative
paths start from, and the text on the console.
-/

namespace DefaultLogic

/-- The names that lead to a place from the root. -/
abbrev Place := List String

inductive Device where
  /-- There is nothing to be read, and what is written is lost. -/
  | sink
  /-- There is no space to write to. -/
  | full
  | console
  | detached
  deriving DecidableEq

inductive Entry where
  | file (bytes : ByteArray)
  | device (d : Device)
  | directory
  | link (target : Place)

structure Disk where
  directory : Place
  entries : List (Place × Entry)
  console : String := ""

namespace Disk

/-- What is at a place.  A place on the way to another one is a directory. -/
def entry? (d : Disk) (p : Place) : Option Entry :=
  match d.entries.lookup p with
  | some e => some e
  | none =>
    if p.isPrefixOf d.directory || d.entries.any (fun e => p.isPrefixOf e.1) then some .directory
    else none

def checkDirectory (d : Disk) (p : Place) : Except FileProblem Unit :=
  match d.entry? p with
  | some .directory => .ok ()
  | some _ => .error .notDirectory
  | none => .error .missing

/-- Where a link at a place leads, or the place itself. -/
def target (d : Disk) (p : Place) : Place :=
  match d.entry? p with
  | some (.link q) => q
  | _ => p

/-- Follows a name out of a directory.  There need not be anything where it leads. -/
def step (d : Disk) (p : Place) (name : String) : Except FileProblem Place := do
  d.checkDirectory p
  if name = "." then return p
  else if name = ".." then return p.dropLast
  else if Path.longestName < name.utf8ByteSize then .error .nameTooLong
  else return d.target (p ++ [name])

def walk (d : Disk) (path : Path) : Except FileProblem Place :=
  path.names.foldlM d.step (if path.isAbsolute then [] else d.directory)

def find (d : Disk) (path : Path) : Except FileProblem (Place × Entry) := do
  let p ← d.walk path
  if path.asksForDirectory then d.checkDirectory p
  match d.entry? p with
  | some e => return (p, e)
  | none => .error .missing

/-- The full path of what a path leads to.  The console has none. -/
def resolve (d : Disk) (text : String) : String :=
  match Path.ofString text >>= d.find with
  | .ok (_, .device .console) => text
  | .ok (p, _) => "/" ++ "/".intercalate p
  | .error _ => text

def read (d : Disk) (text : String) : Except FileProblem String := do
  match ← d.find (← Path.toOpen text) with
  | (_, .file bytes) => return Shell.textOf bytes
  | (_, .device .detached) => .error .noDevice
  | _ => return ""

def put (d : Disk) (p : Place) (e : Entry) : Disk :=
  { d with
    entries :=
      if d.entries.any (·.1 = p) then d.entries.map fun f => if f.1 = p then (p, e) else f
      else d.entries ++ [(p, e)] }

def create (d : Disk) (text : String) : Except FileProblem Disk := do
  let path ← Path.toOpen text
  match path.names.getLast? with
  | none | some "." | some ".." =>
    let _ ← d.walk path
    .error .directory
  | some name =>
    let parent ← d.walk { path with names := path.names.dropLast }
    d.checkDirectory parent
    if path.asksForDirectory then .error .directory
    let p ← d.step parent name
    match d.entry? p with
    | some .directory => .error .directory
    | some (.device .detached) => .error .noDevice
    | some (.device _) => return d
    | some (.file _) | some (.link _) | none => return d.put p (.file .empty)

def write (d : Disk) : Option String → String → Except FileProblem Disk
  | none, text => .ok { d with console := d.console ++ text }
  | some output, text => do
    match ← d.find (← Path.toOpen output) with
    | (p, .file bytes) => return d.put p (.file (bytes ++ text.toUTF8))
    | (_, .device .console) => return { d with console := d.console ++ text }
    | (_, .device .full) => .error .noSpace
    | (_, .device .detached) => .error .noDevice
    | (_, .device .sink) => return d
    | (_, .directory) => .error .directory
    | (_, .link _) => .error .missing

def change (next : Disk → Except FileProblem Disk) :
    StateT Disk Logged (Except FileProblem Unit) := do
  match next (← get) with
  | .ok d => do
    set d
    return .ok ()
  | .error p => return .error p

instance : Shell (StateT Disk Logged) where
  log e := StateT.lift (Logged.log e)
  resolve path := return (← get).resolve path
  read path := return (← get).read path
  create path := change fun d => d.create path
  write output? text := change fun d => d.write output? text

end Disk

def Command.runOn (F : Dataset.Format) (c : Command) (d : Disk) :
    Logged (Except Failure Unit × Disk) :=
  (c.run (m := StateT Disk Logged) F).run.run d

end DefaultLogic
