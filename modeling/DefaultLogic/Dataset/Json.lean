import DefaultLogic.Dataset.Basic
import DefaultLogic.Json.Fields
import DefaultLogic.Json.Reader

/-!
# Datasets as documents

The document of a dataset is an object.  Without a list of theories its own fields describe the only
theory.
-/

namespace DefaultLogic

namespace Spec

def keys : List String :=
  ["rule", "fact", "has_extension", "credulous_entail", "skeptical_entail", "not_credulous_entail",
    "not_skeptical_entail", "add"]

/-- A count is a number of 64 bits. -/
def countOfJson? : Json → Option Nat
  | .number n => n.toNat?.filter (· < UInt64.size)
  | _ => none

def ofFields? (nestings : Nat) (readAdditions : Json → Option (List Spec)) (fs : Json.Fields) :
    Option Spec := do
  let texts (key : String) := fs.get? key [] (Json.texts? nestings)
  return {
    rules := ← texts "rule"
    facts := ← texts "fact"
    count? := ← fs.get? "has_extension" none (Json.nullable? countOfJson?)
    credulous := ← texts "credulous_entail"
    skeptical := ← texts "skeptical_entail"
    notCredulous := ← texts "not_credulous_entail"
    notSkeptical := ← texts "not_skeptical_entail"
    additions := ← fs.get? "add" [] readAdditions }

/-- Reads theories, each an object or an array of its fields. -/
def listOfJson? : Nat → Json → Option (List Spec)
  | nestings + 2, .array es => es.mapM fun
    | .array fields => do
      ofFields? nestings (listOfJson? nestings) (← Json.Fields.ofElements? keys fields)
    | j => do
      ofFields? nestings (listOfJson? nestings) (← Json.Fields.ofMembers? keys (← j.members?))
  | 1, .array [] => some []
  | _, _ => none

mutual

def toJson : Spec → Json
  | ⟨rules, facts, count?, credulous, skeptical, notCredulous, notSkeptical, additions⟩ =>
    let unlessEmpty (key : String) (ts : List String) : List (Option String × Json) :=
      if ts.isEmpty then [] else [(some key, .texts ts)]
    .object ([(some "rule", .texts rules), (some "fact", .texts facts)] ++
      (count?.toList.map fun n => (some "has_extension", .number (.ofNat n))) ++
      unlessEmpty "credulous_entail" credulous ++ unlessEmpty "skeptical_entail" skeptical ++
      unlessEmpty "not_credulous_entail" notCredulous ++
      unlessEmpty "not_skeptical_entail" notSkeptical ++
      if additions.isEmpty then [] else [(some "add", .array (toJsonEach additions))])

private def toJsonEach : List Spec → List Json
  | [] => []
  | s :: ss => s.toJson :: toJsonEach ss

end

end Spec

namespace Dataset

/-- How deeply a document may be nested. -/
def nestings : Nat := 127

def keys : List String := ["action", "format", "logic", "dataset"]

/-- Reads the content of a document.  The list of theories skips what it does not know; all other
members are read in full, and so is the theory described by the fields of the dataset itself. -/
def Content.ofJson? (j : Json) : Option Content := do
  let ms ← j.members?
  let fs ← Json.Fields.ofMembers? (keys ++ Spec.keys) ms
  if ms.all fun (k, v) => k = "dataset" || v.readable (nestings - 1) then
    let name (key : String) := fs.get? key none (Json.nullable? Json.text?)
    let own ← Spec.ofFields? (nestings - 1) (Spec.listOfJson? (nestings - 1)) fs
    let listed? ← fs.get? "dataset" none (Json.nullable? (Spec.listOfJson? (nestings - 1)))
    return {
      action? := ← name "action"
      format? := ← name "format"
      logic? := ← name "logic"
      theories := listed?.getD [own] }
  else none

def Format.json : Format where
  read text :=
    match Json.parse? text with
    | none => .error "malformed document"
    | some j =>
      match Content.ofJson? j with
      | none => .error "not a dataset"
      | some c => .ok c
  write := Json.render

end Dataset

end DefaultLogic
