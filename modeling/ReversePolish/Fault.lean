import ReversePolish.Stack.Basic
import ReversePolish.Queue.Basic
import ReversePolish.Diagnostic

/-!
# Fault — why a move of a conversion fails

A malformed text is a diagnostic.  The other faults come from moves made by hand: reading behind the text,
a container that is full or empty, a string on the stack that is no operator, a second conversion; or from
an observer that stops the conversion.
-/

namespace ReversePolish

/-- The causes of a failed move; `pastEnd` names the position at which there is no character. -/
inductive Fault where
  | pastEnd (pos : Nat)
  | stack (error : Stack.Error)
  | queue (error : Queue.Error)
  | unknownOperator (symbol : String)
  | alreadyConverted
  | stopped (reason : String)
  | malformed (diagnostic : Diagnostic)
  deriving Repr, DecidableEq

/-- The first position that no text can have: an index is a signed word of 64 bits. -/
def Fault.indexLimit : Nat := 0x8000000000000000

/-- The text of a fault; a position from the index limit on is told apart from one just behind the text. -/
def Fault.message : Fault → String
  | pastEnd pos =>
    if pos < indexLimit then "string index out of range"
    else "cannot fit \x27int\x27 into an index-sized integer"
  | stack error => error.message
  | queue error => error.message
  | unknownOperator symbol => Text.quoted symbol
  | alreadyConverted => "Postfix.parse() can only be called once per instance"
  | stopped reason => reason
  | malformed diagnostic => diagnostic.message

end ReversePolish
