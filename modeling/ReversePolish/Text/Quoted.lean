import ReversePolish.Text.Printable

/-!
# Quoted — a string as a message shows it

A quoted string stands between two equal marks.  Inside, a backslash and the mark in use follow a
backslash, tabulator, line feed and carriage return are written by a letter, and a character that is not
printable by its code in two, four or eight lower-case hexadecimal digits.
-/

namespace ReversePolish.Text

/-! ## 1. One character -/

/-- The last `width` hexadecimal digits of `n`, the highest first. -/
def hexDigits : Nat → Nat → List Char
  | 0, _ => []
  | width + 1, n => hexDigits width (n / 16) ++ [Nat.digitChar (n % 16)]

/-- The code of an unprintable character: the shortest of the three forms that holds it. -/
def charCode (c : Char) : List Char :=
  if c.toNat < 0x100 then '\\' :: 'x' :: hexDigits 2 c.toNat
  else if c.toNat < 0x10000 then '\\' :: 'u' :: hexDigits 4 c.toNat
  else '\\' :: 'U' :: hexDigits 8 c.toNat

/-- How `c` is written between two marks `mark`. -/
def escaped (mark c : Char) : List Char :=
  if c = mark ∨ c = '\\' then ['\\', c]
  else if c = '\t' then ['\\', 't']
  else if c = '\n' then ['\\', 'n']
  else if c = '\r' then ['\\', 'r']
  else if isPrintable c then [c]
  else charCode c

/-! ## 2. Whole strings -/

def singleQuote : Char := '\x27'

def doubleQuote : Char := '\x22'

/-- The mark for a string: a double quote if the string holds a single quote and no double one, else a
single quote. -/
def quoteMark (s : List Char) : Char :=
  if singleQuote ∈ s ∧ doubleQuote ∉ s then doubleQuote else singleQuote

def quotedChars (s : List Char) : List Char :=
  quoteMark s :: (s.flatMap (escaped (quoteMark s)) ++ [quoteMark s])

def quoted (s : String) : String :=
  String.ofList (quotedChars s.toList)

/-! ## 3. Lists -/

def bracketed (items : List String) : String :=
  "[" ++ ", ".intercalate items ++ "]"

def quotedList (items : List String) : String :=
  bracketed (items.map quoted)

end ReversePolish.Text
