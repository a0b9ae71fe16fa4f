import DefaultLogic.Formula.Basic
import DefaultLogic.Log

/-!
# Ground logics

What default reasoning needs of propositional theories: to add formulas and to check them.  A check
may change how a theory is stored, though not what it says, so it returns the theory as well.
Reasoning itself goes through a monad, so that theories may share what they store.
-/

namespace DefaultLogic

class GroundLogic (T : Type) where
  add : T → Formula → T
  formulas : T → List Formula
  /-- Whether the theory is satisfiable, together with a formula if one is given. -/
  satisfiable : Option Formula → T → Logged (Bool × T)
  entails : Formula → T → Logged (Bool × T)

namespace GroundLogic

variable {T : Type} [GroundLogic T]

def addAll (t : T) (fs : List Formula) : T := fs.foldl add t

/-- Whether all formulas are entailed; the first one that is not ends the check. -/
def entailsAll : List Formula → T → Logged (Bool × T)
  | [], t => pure (true, t)
  | f :: fs, t => do
    let (b, t) ← entails f t
    if b then entailsAll fs t else pure (false, t)

end GroundLogic

/-- A ground logic in a monad, which may hold what the theories only refer to. -/
class GroundMonad (M : Type → Type) (T : Type) where
  add : T → Formula → M T
  satisfiable : Option Formula → T → M (Bool × T)
  entails : Formula → T → M (Bool × T)

namespace GroundMonad

variable {M : Type → Type} {T : Type}

def addAll [Monad M] [GroundMonad M T] : T → List Formula → M T
  | t, [] => pure t
  | t, f :: fs => do
    let t ← add t f
    addAll t fs

instance [GroundLogic T] : GroundMonad Logged T where
  add t f := pure (GroundLogic.add t f)
  satisfiable := GroundLogic.satisfiable
  entails := GroundLogic.entails

theorem addAll_logged [GroundLogic T] (t : T) (fs : List Formula) :
    (addAll t fs : Logged T) = pure (GroundLogic.addAll t fs) := by
  induction fs generalizing t with
  | nil => rfl
  | cons f fs ih => exact ih (GroundLogic.add t f)

end GroundMonad

end DefaultLogic
