import ReversePolish.Operator

/-!
# Token — the pieces of a text, each with its place

A text is read from the left.  Spaces only separate.  An ASCII digit starts a number, which runs to the
next space, closing parenthesis or end of the text whatever else it holds; an operator and a parenthesis
stand for themselves; any other character where a token starts is invalid.
-/

namespace ReversePolish

/-! ## 1. Lexemes -/

def openingChar : Char := '('

def closingChar : Char := ')'

def opening : String := String.singleton openingChar

def closing : String := String.singleton closingChar

inductive Lexeme where
  | number (literal : List Char)
  | operator (op : Operator)
  | opening
  | closing
  | invalid (c : Char)
  deriving Repr, DecidableEq

namespace Lexeme

def chars : Lexeme → List Char
  | number literal => literal
  | operator op => [op.char]
  | opening => [openingChar]
  | closing => [closingChar]
  | invalid c => [c]

/-- The lexeme of one character that starts no number. -/
def single (c : Char) : Lexeme :=
  match Operator.ofChar? c with
  | some op => operator op
  | none =>
    if c = openingChar then opening
    else if c = closingChar then closing
    else invalid c

end Lexeme

/-! ## 2. Numbers -/

def separator : Char := ' '

def digits : List Char := ['0', '1', '2', '3', '4', '5', '6', '7', '8', '9']

def delimiters : List Char := [separator, closingChar]

def continuesNumber (c : Char) : Bool := !delimiters.contains c

/-- The longest beginning of a text that holds neither a space nor a closing parenthesis. -/
def numberRun (cs : List Char) : List Char :=
  cs.takeWhile continuesNumber

def afterNumber (cs : List Char) : List Char :=
  cs.dropWhile continuesNumber

theorem numberRun_append_afterNumber (cs : List Char) : numberRun cs ++ afterNumber cs = cs :=
  List.takeWhile_append_dropWhile

theorem length_afterNumber_le (cs : List Char) : (afterNumber cs).length ≤ cs.length := by
  have h := congrArg List.length (numberRun_append_afterNumber cs)
  rw [List.length_append] at h
  omega

theorem continuesNumber_of_mem_digits {c : Char} (h : c ∈ digits) : continuesNumber c = true := by
  have all : digits.all continuesNumber = true := by decide
  exact List.all_eq_true.1 all c h

/-! ## 3. Tokens -/

/-- A lexeme and the position of its first character. -/
structure Token where
  start : Nat
  lexeme : Lexeme
  deriving Repr, DecidableEq

/-- The position behind a token. -/
def Token.stop (t : Token) : Nat :=
  t.start + t.lexeme.chars.length

/-- The tokens of a text whose first character has position `pos`. -/
def scan (pos : Nat) : List Char → List Token
  | [] => []
  | c :: rest =>
    if c = separator then scan (pos + 1) rest
    else if c ∈ digits then
      ⟨pos, .number (c :: numberRun rest)⟩ :: scan (pos + 1 + (numberRun rest).length) (afterNumber rest)
    else ⟨pos, .single c⟩ :: scan (pos + 1) rest
  termination_by cs => cs.length
  decreasing_by
    · simp
    · have := length_afterNumber_le rest
      simp only [List.length_cons]
      omega
    · simp

end ReversePolish
