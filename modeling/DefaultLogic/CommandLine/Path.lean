import DefaultLogic.Failure

/-!
# Paths

A path is a list of names, to be followed one after the other from the root or from the directory
that one is in.  Its text separates the names by slashes; how many slashes there are makes no
difference, but a slash at the end asks for a directory.
-/

namespace DefaultLogic

structure Path where
  isAbsolute : Bool
  names : List String
  asksForDirectory : Bool
  deriving DecidableEq

namespace Path

def longestName : Nat := 255

/-- The longest text of a path that a file can be opened by, in bytes. -/
def longestText : Nat := 4095

def namesOf (text : String) : List String :=
  ((text.toList.splitOn '/').filter (· ≠ [])).map String.ofList

def ofString (text : String) : Except FileProblem Path :=
  if text.contains '\x00' then .error .nullCharacter
  else if text.isEmpty then .error .missing
  else .ok ⟨text.startsWith "/", namesOf text, text.endsWith "/"⟩

def toOpen (text : String) : Except FileProblem Path := do
  let path ← ofString text
  if longestText < text.utf8ByteSize then .error .nameTooLong
  return path

end Path

end DefaultLogic
