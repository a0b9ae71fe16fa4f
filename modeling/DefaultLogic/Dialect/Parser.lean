import DefaultLogic.Dialect.Token
import DefaultLogic.Rule

/-!
# Reading formulas and rules

From the loosest to the tightest: the colon of a rule; the implications, which group to the right,
and the equivalence, which groups to the left; conjunction and disjunction, which group to the left
with equal strength; negation.  A chain of one junction without brackets is a single node.  A rule
may stand in brackets but is never an operand.
-/

namespace DefaultLogic

inductive Statement where
  | formula (f : Formula)
  | rule (r : Rule)
  deriving DecidableEq

inductive Fault where
  | emptyText
  | endsEarly
  | expected (symbol : String)
  | unknownSymbol
  | unexpected (symbol : String)
  | ruleAsOperand
  deriving DecidableEq

/-- A fault, the byte offset where it shows and the first characters from there. -/
structure ParseError where
  fault : Fault
  position : Nat
  excerpt : String
  deriving DecidableEq

def Fault.message : Fault → String
  | .emptyText => "Empty String"
  | .endsEarly => "Ends too early"
  | .expected symbol => "Expect symbol: " ++ symbol
  | .unknownSymbol => "Unknown symbol!"
  | .unexpected symbol => "Unexpected symbol: " ++ symbol
  | .ruleAsOperand => "a default rule cannot be used as an operand"

/-- An excerpt has at most seven characters. -/
def Fault.at (fault : Fault) (m : Mark) : ParseError :=
  ⟨fault, m.offset, String.ofList (m.rest.take 7)⟩

def ParseError.message (e : ParseError) : String :=
  "Syntax Error at " ++ toString e.position ++ " [..." ++ e.excerpt ++ "...]: " ++ e.fault.message

namespace Parser

/-! ## Binding strengths -/

def colonStrength : Nat := 10

def arrowStrength : Nat := 20

def junctionStrength : Nat := 30

def notStrength : Nat := 50

end Parser

/-- How tightly a token binds the operand on its left; zero for a token that takes none. -/
def Token.strength : Token → Nat
  | .connective (.junction _) => Parser.junctionStrength
  | .connective (.arrow _) => Parser.arrowStrength
  | .colon => Parser.colonStrength
  | _ => 0

/-- The right operand of an arrow takes the operators that bind more tightly than this, so it takes
a further arrow after an implication and none after the equivalence. -/
def Arrow.rightBound : Arrow → Nat
  | .material | .internal => Parser.arrowStrength - 1
  | .equivalence => Parser.arrowStrength

/-- Adds an operand to a chain of one junction, or starts a chain. -/
def Formula.chain (open? : Option Junction) (j : Junction) (left right : Formula) : Formula :=
  match left with
  | .junction _ fs =>
    if open? = some j then .junction j (fs ++ [right]) else .junction j [left, right]
  | _ => .junction j [left, right]

namespace Stop

/-- A token can be taken only once the next one, or the end of the text, has been read. -/
def check (stop : Stop) (ls : List Lexeme) : Except ParseError Unit :=
  match ls, stop with
  | [], .unknown m => .error (Fault.unknownSymbol.at m)
  | _, _ => .ok ()

def expect (d : Dialect) (stop : Stop) (t : Token) (ls : List Lexeme) :
    Except ParseError { r : List Lexeme // r.length ≤ ls.length } :=
  match ls with
  | [] => .error ((Fault.expected (d.spell t)).at stop.mark)
  | l :: rest =>
    if l.token = t then do
      stop.check rest
      .ok ⟨rest, by simp⟩
    else .error ((Fault.expected (d.spell t)).at l.mark)

end Stop

/-- A rule is no operand of the operator at the given place. -/
def Statement.operand (m : Mark) : Statement → Except ParseError Formula
  | .formula f => .ok f
  | .rule _ => .error (Fault.ruleAsOperand.at m)

namespace Parser

variable (d : Dialect) (stop : Stop)

mutual

/-- Reads an expression whose operators bind more tightly than `bound`. -/
def expression (bound : Nat) :
    (ls : List Lexeme) → Except ParseError (Statement × { r : List Lexeme // r.length < ls.length })
  | [] => .error (Fault.endsEarly.at stop.mark)
  | l :: ls => do
    stop.check ls
    let ⟨left, ⟨ls₁, h₁⟩⟩ ← primary l ls
    let ⟨whole, ⟨ls₂, h₂⟩⟩ ← climb bound left none ls₁
    .ok (whole, ⟨ls₂, by simp only [List.length_cons]; omega⟩)
termination_by ls => (ls.length, 0)
decreasing_by
  · exact Prod.Lex.left _ _ (Nat.lt_succ_self _)
  · exact Prod.Lex.left _ _ (Nat.lt_succ_of_le h₁)

/-- Reads what the token `l` starts. -/
def primary (l : Lexeme) (ls : List Lexeme) :
    Except ParseError (Statement × { r : List Lexeme // r.length ≤ ls.length }) :=
  match l.token with
  | .atom name => .ok (.formula (.atom name), ⟨ls, Nat.le_refl _⟩)
  | .connective .not => do
    let ⟨f, ⟨ls₁, h₁⟩⟩ ← expression notStrength ls
    .ok (.formula (.not (← f.operand l.mark)), ⟨ls₁, Nat.le_of_lt h₁⟩)
  | .opening b => do
    let ⟨inner, ⟨ls₁, h₁⟩⟩ ← expression 0 ls
    let ⟨ls₂, h₂⟩ ← stop.expect d (.closing b) ls₁
    .ok (inner, ⟨ls₂, by omega⟩)
  | t => .error ((Fault.unexpected (d.spell t)).at l.mark)
termination_by (ls.length, 1)
decreasing_by all_goals exact Prod.Lex.right _ Nat.zero_lt_one

/-- Goes on from `left` while the operators bind more tightly than `bound`.  `chain?` is the
junction that `left` is an open chain of. -/
def climb (bound : Nat) (left : Statement) (chain? : Option Junction) :
    (ls : List Lexeme) → Except ParseError (Statement × { r : List Lexeme // r.length ≤ ls.length })
  | [] => .ok (left, ⟨[], Nat.le_refl _⟩)
  | l :: ls =>
    if bound < l.token.strength then do
      stop.check ls
      let f ← left.operand l.mark
      match l.token with
      | .connective (.junction j) => do
        let ⟨g, ⟨ls₁, h₁⟩⟩ ← expression junctionStrength ls
        let ⟨s, ⟨ls₂, h₂⟩⟩ ←
          climb bound (.formula (f.chain chain? j (← g.operand l.mark))) (some j) ls₁
        .ok (s, ⟨ls₂, by simp only [List.length_cons]; omega⟩)
      | .connective (.arrow a) => do
        let ⟨g, ⟨ls₁, h₁⟩⟩ ← expression a.rightBound ls
        let ⟨s, ⟨ls₂, h₂⟩⟩ ← climb bound (.formula (.arrow a f (← g.operand l.mark))) none ls₁
        .ok (s, ⟨ls₂, by simp only [List.length_cons]; omega⟩)
      | .colon => do
        let ⟨g, ⟨ls₁, h₁⟩⟩ ← expression colonStrength ls
        let g ← g.operand l.mark
        let ⟨ls₂, h₂⟩ ← stop.expect d .slash ls₁
        let ⟨h, ⟨ls₃, h₃⟩⟩ ← expression colonStrength ls₂
        let ⟨s, ⟨ls₄, h₄⟩⟩ ← climb bound (.rule ⟨f, g, ← h.operand l.mark⟩) none ls₃
        .ok (s, ⟨ls₄, by simp only [List.length_cons]; omega⟩)
      | t => .error ((Fault.unexpected (d.spell t)).at l.mark)
    else .ok (left, ⟨l :: ls, Nat.le_refl _⟩)
termination_by ls => (ls.length, 0)
decreasing_by all_goals exact Prod.Lex.left _ _ (by simp only [List.length_cons]; omega)

end

end Parser

def Dialect.parse (d : Dialect) (text : String) : Except ParseError Statement :=
  let (ls, stop) := d.lexemes (Mark.start text)
  match ls, stop with
  | [], .complete m => .error (Fault.emptyText.at m)
  | ls, stop => do
    stop.check ls
    let (s, ⟨rest, _⟩) ← Parser.expression d stop 0 ls
    match rest with
    | [] => .ok s
    | l :: _ => .error ((Fault.expected "End").at l.mark)

end DefaultLogic
