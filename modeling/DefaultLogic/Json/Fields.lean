import DefaultLogic.Json.Basic

/-!
# Fields of a document

A record is read from an object by its keys, or from an array by position.  Reading counts the
nestings that are left: entering an array or an object takes one.
-/

namespace DefaultLogic.Json

def text? : Json → Option String
  | .string s => some s
  | _ => none

def texts? (nestings : Nat) : Json → Option (List String)
  | .array es => if nestings = 0 then none else es.mapM text?
  | _ => none

def members? : Json → Option (List (String × Json))
  | .object ms => ms.mapM fun (k, v) => k.map (·, v)
  | _ => none

abbrev Fields := String → Option Json

namespace Fields

/-- The fields of an object; other members are ignored, but none of the keys may be repeated. -/
def ofMembers? (keys : List String) (ms : List (String × Json)) : Option Fields :=
  if keys.all fun k => (ms.map Prod.fst).count k ≤ 1 then some fun k => ms.lookup k else none

/-- The fields of an array, in the order of the keys; the last ones may be missing. -/
def ofElements? (keys : List String) (es : List Json) : Option Fields :=
  if es.length ≤ keys.length then some fun k => (keys.zip es).lookup k else none

def get? {α : Type} (fields : Fields) (key : String) (missing : α) (read : Json → Option α) :
    Option α :=
  match fields key with
  | none => some missing
  | some j => read j

end Fields

def nullable? {α : Type} (read : Json → Option α) : Json → Option (Option α)
  | .null => some none
  | j => some <$> read j

end DefaultLogic.Json
