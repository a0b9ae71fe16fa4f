/-!
# Actions

A dataset is loaded as a single theory or tested against its expectations.
-/

namespace DefaultLogic

inductive Action where
  | load
  | test
  deriving DecidableEq, Inhabited

namespace Action

def name : Action → String
  | .load => "load"
  | .test => "test"

def ofName? : String → Option Action
  | "load" => some .load
  | "test" => some .test
  | _ => none

theorem ofName?_name (a : Action) : ofName? a.name = some a := by cases a <;> rfl

end Action

end DefaultLogic
