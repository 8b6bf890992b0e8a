import ReversePolish.Fixity

/-!
# Operator — the five binary operators

The operators, the characters that write them and their fixities: the power binds tightest and groups to
the right, the other four group to the left.
-/

namespace ReversePolish

inductive Operator where
  | pow
  | mul
  | div
  | add
  | sub
  deriving Repr, DecidableEq

namespace Operator

/-! ## 1. Spelling -/

/-- The operators in the order of their table. -/
def all : List Operator := [pow, mul, div, add, sub]

def char : Operator → Char
  | pow => '^'
  | mul => '*'
  | div => '/'
  | add => '+'
  | sub => '-'

/-- The one-character string that stands for an operator on the stack and in the output. -/
def symbol (o : Operator) : String := String.singleton o.char

def ofChar? (c : Char) : Option Operator :=
  all.find? (·.char = c)

def ofSymbol? (s : String) : Option Operator :=
  all.find? (·.symbol = s)

theorem ofChar?_char (o : Operator) : ofChar? o.char = some o := by
  cases o <;> decide

theorem ofSymbol?_symbol (o : Operator) : ofSymbol? o.symbol = some o := by
  cases o <;> decide

theorem ofChar?_eq_some_iff {c : Char} {o : Operator} : ofChar? c = some o ↔ o.char = c := by
  constructor
  · intro h
    simpa using List.find?_some h
  · rintro rfl
    exact ofChar?_char o

theorem ofSymbol?_eq_some_iff {s : String} {o : Operator} : ofSymbol? s = some o ↔ o.symbol = s := by
  constructor
  · intro h
    simpa using List.find?_some h
  · rintro rfl
    exact ofSymbol?_symbol o

theorem symbol_injective {a b : Operator} (h : a.symbol = b.symbol) : a = b := by
  have hb := ofSymbol?_symbol b
  rw [← h, ofSymbol?_symbol] at hb
  exact Option.some.inj hb

/-! ## 2. Order of application -/

def fixity : Operator → Fixity
  | pow => ⟨4, .right⟩
  | mul => ⟨3, .left⟩
  | div => ⟨3, .left⟩
  | add => ⟨2, .left⟩
  | sub => ⟨2, .left⟩

def appliesBefore (waiting incoming : Operator) : Bool :=
  waiting.fixity.appliesBefore incoming.fixity

theorem appliesBefore_iff {waiting incoming : Operator} :
    waiting.appliesBefore incoming = true ↔
      incoming.fixity.precedence < waiting.fixity.precedence ∨
        (incoming.fixity.precedence = waiting.fixity.precedence ∧
          incoming.fixity.associativity = .left) :=
  Fixity.appliesBefore_iff

/-- What binds at least as tightly as an operator that applies before `o` applies before it, too. -/
theorem appliesBefore_of_le_left {a b o : Operator}
    (h : a.fixity.precedence ≤ b.fixity.precedence) (ha : a.appliesBefore o = true) :
    b.appliesBefore o = true := by
  rw [appliesBefore_iff] at ha ⊢
  rcases ha with hlt | ⟨heq, hleft⟩
  · exact .inl (Nat.lt_of_lt_of_le hlt h)
  · rcases Nat.lt_or_eq_of_le h with hlt | hsame
    · exact .inl (heq ▸ hlt)
    · exact .inr ⟨heq.trans hsame, hleft⟩

/-- Operators of one precedence group to the same side. -/
theorem associativity_eq {a b : Operator} (h : a.fixity.precedence = b.fixity.precedence) :
    a.fixity.associativity = b.fixity.associativity := by
  revert h
  cases a <;> cases b <;> decide

/-- What applies before an operator applies before every one that binds no tighter. -/
theorem appliesBefore_of_le_right {a o p : Operator}
    (h : p.fixity.precedence ≤ o.fixity.precedence) (ha : a.appliesBefore o = true) :
    a.appliesBefore p = true := by
  rw [appliesBefore_iff] at ha ⊢
  rcases Nat.lt_or_eq_of_le h with hlt | hsame
  · left
    omega
  · rwa [hsame, associativity_eq hsame]

end Operator

end ReversePolish
