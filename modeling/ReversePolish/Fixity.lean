import ReversePolish.Text.Quoted

/-!
# Fixity — how tightly a binary operator binds, and to which side it groups
-/

namespace ReversePolish

/-! ## 1. Associativity -/

/-- The side to which operators of one precedence group: `left` reads `a - b - c` as `(a - b) - c`. -/
inductive Associativity where
  | left
  | right
  deriving Repr, DecidableEq

namespace Associativity

def label : Associativity → String
  | left => "LEFT"
  | right => "RIGHT"

def ofLabel? (s : String) : Option Associativity :=
  [left, right].find? (·.label = s)

theorem ofLabel?_label (a : Associativity) : ofLabel? a.label = some a := by
  cases a <;> decide

end Associativity

/-! ## 2. Fixity -/

/-- The precedence of an operator, higher binding tighter, and its associativity. -/
structure Fixity where
  precedence : Nat
  associativity : Associativity := .left
  deriving Repr, DecidableEq

namespace Fixity

inductive Error where
  | negativePrecedence (precedence : Int)
  deriving Repr, DecidableEq

def Error.message : Error → String
  | negativePrecedence p => "precedence must be >= 0, got " ++ toString p

def ofPrecedence (p : Int) (a : Associativity := .left) : Except Error Fixity :=
  if 0 ≤ p then .ok ⟨p.toNat, a⟩ else .error (.negativePrecedence p)

def isLeft (f : Fixity) : Bool :=
  f.associativity == .left

def display (f : Fixity) : String :=
  "<OperatorSpec precedence=" ++ toString f.precedence ++ " associativity=" ++
    f.associativity.label ++ ">"

/-- Whether an operator of fixity `waiting` applies before a later one of fixity `incoming`: it binds
tighter, or as tightly while the later one groups to the left. -/
def appliesBefore (waiting incoming : Fixity) : Bool :=
  incoming.precedence < waiting.precedence ||
    (incoming.precedence == waiting.precedence && incoming.isLeft)

theorem appliesBefore_iff {waiting incoming : Fixity} :
    waiting.appliesBefore incoming = true ↔ incoming.precedence < waiting.precedence ∨
      (incoming.precedence = waiting.precedence ∧ incoming.associativity = .left) := by
  simp [appliesBefore, isLeft]

end Fixity

end ReversePolish
