/-!
# Kinds of default logics

Reiter's default logic over classical propositional logic, and two paraconsistent ones: over a
paraconsistent propositional logic, and over classical logic with renamed negations.
-/

namespace DefaultLogic

inductive Kind where
  | classical
  | native
  | renamed
  deriving DecidableEq

namespace Kind

instance : Inhabited Kind := ⟨.native⟩

def name : Kind → String
  | .classical => "cpdl"
  | .native => "spdl1"
  | .renamed => "spdl2"

def ofName? : String → Option Kind
  | "cpdl" => some .classical
  | "spdl1" => some .native
  | "spdl2" => some .renamed
  | _ => none

theorem ofName?_name (k : Kind) : ofName? k.name = some k := by cases k <;> rfl

end Kind

end DefaultLogic
