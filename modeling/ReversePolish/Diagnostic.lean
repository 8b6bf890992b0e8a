import ReversePolish.Text.Quoted

/-!
# Diagnostic — what is wrong with a text, and where

A diagnostic names a kind, gives a reason in words and points at the characters from `start` up to `stop`.
-/

namespace ReversePolish

/-! ## 1. Kinds -/

/-- The kinds of malformed text; `malformed` is the general one. -/
inductive Diagnostic.Kind where
  | malformed
  | invalidToken
  | invalidOperatorCount
  | unmatchedOpening
  | mismatchedClosing
  | missingOpening
  deriving Repr, DecidableEq

namespace Diagnostic.Kind

def all : List Kind :=
  [malformed, invalidToken, invalidOperatorCount, unmatchedOpening, mismatchedClosing, missingOpening]

def name : Kind → String
  | malformed => "FormatError"
  | invalidToken => "InvalidToken"
  | invalidOperatorCount => "InvalidOperatorCount"
  | unmatchedOpening => "UnmatchedOpenParenthesis"
  | mismatchedClosing => "MismatchedParenthesis"
  | missingOpening => "MissingOpenParenthesis"

def ofName? (s : String) : Option Kind :=
  all.find? (·.name = s)

theorem ofName?_name (k : Kind) : ofName? k.name = some k := by
  cases k <;> decide

end Diagnostic.Kind

/-! ## 2. Diagnostics -/

/-- A kind, a reason and the range of characters that it is about. -/
structure Diagnostic where
  kind : Diagnostic.Kind
  reason : String
  start : Int
  stop : Int
  deriving Repr, DecidableEq

namespace Diagnostic

/-- A diagnostic as one line: the range, then the reason. -/
def message (d : Diagnostic) : String :=
  "@[" ++ toString d.start ++ ", " ++ toString d.stop ++ "]: " ++ d.reason

/-- A diagnostic as an expression that would build it. -/
def display (d : Diagnostic) : String :=
  d.kind.name ++ "(" ++ Text.quoted d.reason ++ ", " ++ toString d.start ++ ", " ++ toString d.stop ++ ")"

/-! ## 3. What a conversion finds -/

/-- No token starts with the character `c` at `start`. -/
def invalidToken (c : Char) (start : Nat) : Diagnostic :=
  ⟨.invalidToken, "Invalid token " ++ Text.quoted (String.singleton c), start, start + 1⟩

/-- The character `found` at `start` is not the one that was `expected`. -/
def unexpectedToken (expected : String) (found : Char) (start : Nat) : Diagnostic :=
  ⟨.invalidToken, "Expected " ++ Text.quoted expected ++ ", got " ++ Text.quoted (String.singleton found),
    start, start + 1⟩

/-- A text of length `stop` has as many operators as numbers, or more. -/
def invalidOperatorCount (operators numbers stop : Nat) : Diagnostic :=
  ⟨.invalidOperatorCount,
    "Invalid operator count: " ++ toString operators ++ ", number count: " ++ toString numbers, 0, stop⟩

/-- A group is still open at the end of a text of length `stop`. -/
def unmatchedOpening (stop : Nat) : Diagnostic :=
  ⟨.unmatchedOpening, "Unmatched open parenthesis", stop, stop⟩

/-- The closing parenthesis from `start` to `stop` closes no group. -/
def mismatchedClosing (start stop : Nat) : Diagnostic :=
  ⟨.mismatchedClosing, "Mismatched parenthesis", start, stop⟩

end Diagnostic

end ReversePolish
