import DefaultLogic.Dataset.Spec
import DefaultLogic.Json.Basic

/-!
# Datasets

A dataset tells an action, a dialect, a kind of logic and a list of theories.  In which format it is
written is left open.
-/

namespace DefaultLogic

structure Dataset where
  action : Action := default
  dialect : Dialect := default
  kind : Kind := default
  theories : List Spec

namespace Dataset

/-- A dataset whose names are not looked up yet. -/
structure Content where
  action? : Option String := none
  format? : Option String := none
  logic? : Option String := none
  theories : List Spec

/-- A format of documents: what a text says as a dataset, or what is wrong with the text, and how a
document is written. -/
structure Format where
  read : String → Except String Content
  write : Json → String

def lookUp {α : Type} [Inhabited α] (ofName? : String → Option α) (unknown : String → Cause) :
    Option String → Except Failure α
  | none => .ok default
  | some name =>
    match ofName? name with
    | some a => .ok a
    | none => .error (.ofCause (unknown name))

def ofContent (c : Content) : Except Failure Dataset := do
  return {
    action := ← lookUp Action.ofName? .unknownAction c.action?
    dialect := ← lookUp Dialect.ofName? .unknownDialect c.format?
    kind := ← lookUp Kind.ofName? .unknownLogic c.logic?
    theories := c.theories }

def illegal (detail : String) : Failure := (Failure.ofCause (.illegalData detail)).within .json

def read (F : Format) (text : String) : Except Failure Dataset :=
  match F.read text with
  | .error detail => .error (illegal detail)
  | .ok c => ofContent c

end Dataset

end DefaultLogic
