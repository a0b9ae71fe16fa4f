import DefaultLogic.Default.Subsets
import DefaultLogic.Dialect.Render
import DefaultLogic.Theory.Ground

/-!
# Extensions

A set of rules generates an extension when it is the set of exactly those rules that can be applied:
justified by what the facts and the consequents of the set say together, and reached by applying
rules to the facts one after the other.  The search goes through the sets of rules by size.
-/

namespace DefaultLogic

/-- A default theory whose facts make up a theory of a ground logic. -/
structure DefaultTheory (T : Type) where
  rules : List Rule := []
  ground : T

/-- What a visitor of extensions gets: the extension and what it has gathered so far. -/
abbrev VisitorIn (M : Type → Type) (T σ : Type) := T → σ → M (Progress σ)

abbrev Visitor (T σ : Type) := VisitorIn Logged T σ

namespace DefaultTheory

variable {T σ : Type}

def addRule (t : DefaultTheory T) (r : Rule) : DefaultTheory T := { t with rules := t.rules ++ [r] }

def indexed (t : DefaultTheory T) : List (Rule × Nat) := t.rules.zipIdx

def consequents (t : DefaultTheory T) (indices : List Nat) : List Formula :=
  indices.filterMap fun i => t.rules[i]?.map Rule.consequent

/-- The outcome of one pass over the rules: the conclusions drawn, the rules applied, by index, and
those that wait. -/
structure Pass (T : Type) where
  conclusions : T
  applied : List Nat
  waiting : List (Rule × Nat)

/-! ## Reasoning in a monad -/

section

variable (M : Type → Type) [Monad M] [GroundMonad M T]

/-- The facts and the consequents of the chosen rules. -/
def extensionByIn (t : DefaultTheory T) (indices : List Nat) : M T :=
  GroundMonad.addAll t.ground (t.consequents indices)

def justifiedIn : List (Rule × Nat) → T → M (List (Rule × Nat))
  | [], _ => pure []
  | r :: rs, beliefs => do
    let (b, beliefs) ← GroundMonad.satisfiable (some r.1.justification) beliefs
    let rest ← justifiedIn rs beliefs
    pure (if b then r :: rest else rest)

/-- Applies the rules whose prerequisite is entailed, one after the other; none if a rule that was
not chosen can be applied. -/
def applyRulesIn (chosen : List Nat) : List (Rule × Nat) → T → M (Option (Pass T))
  | [], conclusions => pure (some ⟨conclusions, [], []⟩)
  | r :: rs, conclusions => do
    let (b, conclusions) ← GroundMonad.entails r.1.prerequisite conclusions
    if b then
      if r.2 ∈ chosen then do
        let conclusions ← GroundMonad.add conclusions r.1.consequent
        let pass? ← applyRulesIn chosen rs conclusions
        pure (pass?.map fun p => { p with applied := r.2 :: p.applied })
      else pure none
    else do
      let pass? ← applyRulesIn chosen rs conclusions
      pure (pass?.map fun p => { p with waiting := r :: p.waiting })

/-- Applies rules, pass after pass, until none is left or a pass applies none.  The result is the
list of rules applied. -/
def saturateIn (chosen : List Nat) (rules : List (Rule × Nat)) (conclusions : T) :
    M (Option (List Nat)) := do
  match ← applyRulesIn M chosen rules conclusions with
  | none => pure none
  | some p =>
    if p.waiting ≠ [] ∧ p.waiting.length < rules.length then do
      let applied? ← saturateIn chosen p.waiting p.conclusions
      pure (applied?.map (p.applied ++ ·))
    else pure (some p.applied)
termination_by rules.length

/-- Whether the chosen rules are exactly the generating rules of an extension. -/
def generatesIn (t : DefaultTheory T) (chosen : List Nat) : M Bool := do
  let beliefs ← t.extensionByIn M chosen
  let rules ← justifiedIn M t.indexed beliefs
  if chosen.all (rules.map Prod.snd).contains then do
    match ← saturateIn M chosen rules t.ground with
    | none => pure false
    | some applied => pure (chosen.all applied.contains)
  else pure false

/-- Calls the visitor on the extensions, those with fewer generating rules first, until it is
done. -/
def searchIn [MonadLog M] (t : DefaultTheory T) (visit : VisitorIn M T σ) : σ → M (Progress σ) :=
  Subsets.visitBySize (fun chosen s => do
    if ← t.generatesIn M chosen then do
      MonadLog.log (.found chosen)
      visit (← t.extensionByIn M chosen) s
    else pure (.more s)) (List.range t.rules.length)

end

/-! ## Reasoning with theories that share nothing -/

section

variable [GroundLogic T]

def addFact (t : DefaultTheory T) (f : Formula) : DefaultTheory T :=
  { t with ground := GroundLogic.add t.ground f }

def facts (t : DefaultTheory T) : List Formula := GroundLogic.formulas t.ground

def extensionBy (t : DefaultTheory T) (indices : List Nat) : T :=
  GroundLogic.addAll t.ground (t.consequents indices)

theorem extensionByIn_logged (t : DefaultTheory T) (indices : List Nat) :
    t.extensionByIn Logged indices = pure (t.extensionBy indices) :=
  GroundMonad.addAll_logged _ _

abbrev justified : List (Rule × Nat) → T → Logged (List (Rule × Nat)) := justifiedIn Logged

abbrev applyRules (chosen : List Nat) : List (Rule × Nat) → T → Logged (Option (Pass T)) :=
  applyRulesIn Logged chosen

abbrev saturate (chosen : List Nat) : List (Rule × Nat) → T → Logged (Option (List Nat)) :=
  saturateIn Logged chosen

abbrev generates (t : DefaultTheory T) : List Nat → Logged Bool := t.generatesIn Logged

abbrev search (t : DefaultTheory T) : Visitor T σ → σ → Logged (Progress σ) := t.searchIn Logged

def plain (t : DefaultTheory T) : String := plainTheory t.rules t.facts

def markup (t : DefaultTheory T) : String := markupTheory t.rules t.facts

end

end DefaultTheory

/-! ## Visitors -/

namespace Visitor

/-- Is done at the first extension that entails the formula, or at the first that does not. -/
def entailmentIn (M : Type → Type) {T : Type} [Monad M] [GroundMonad M T] (f : Formula) :
    Mode → VisitorIn M T Bool
  | .credulous => fun e _ => do
    let (b, _) ← GroundMonad.entails f e
    pure (if b then .done true else .more false)
  | .skeptical => fun e _ => do
    let (b, _) ← GroundMonad.entails f e
    pure (if b then .more true else .done false)

variable {T : Type} [GroundLogic T]

def collect : Visitor T (List (List Formula)) := fun e found =>
  pure (.more (found ++ [GroundLogic.formulas e]))

/-- Is done at the first extension. -/
def exists? : Visitor T Bool := fun _ _ => pure (.done true)

abbrev entailment (f : Formula) : Mode → Visitor T Bool := entailmentIn Logged f

/-- The answer of an entailment question about a theory without extensions. -/
def initial : Mode → Bool
  | .credulous => false
  | .skeptical => true

end Visitor

end DefaultLogic
