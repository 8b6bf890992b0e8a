import ReversePolish.Converter.Basic

/-!
# Run — the whole conversion of a text

The tokens of the text are absorbed from left to right, the counts are checked, and what still waits on
the stack is drained to the output.
-/

namespace ReversePolish

namespace Converter

/-! ## 1. One token -/

/-- Absorbs a token: a number goes to the output, an opening parenthesis to the stack, an operator settles,
a closing parenthesis closes its group, and an invalid character ends the conversion where it stands. -/
def absorb (watch : Option Observer) (t : Token) : Conversion Unit := do
  match t.lexeme with
  | .number literal =>
    modify fun c => { c with pos := t.stop, numbers := c.numbers + 1 }
    enqueue (String.ofList literal)
    record watch t.start (String.ofList literal) .number
  | .operator op =>
    modify fun c => { c with pos := t.stop, operators := c.operators + 1 }
    settle watch op t.start
  | .opening =>
    moveTo t.start
    push opening
    moveTo t.stop
    record watch t.start opening .opening
  | .closing =>
    moveTo t.stop
    closeAt watch t.start
  | .invalid ch =>
    moveTo t.start
    throw (.malformed (.invalidToken ch t.start))

/-- Absorbs the tokens from the position on, and goes to the end of the text. -/
def absorbText (watch : Option Observer) : Conversion Unit := do
  let c ← get
  (scan c.pos (c.text.drop c.pos)).forM (absorb watch)
  modify fun c => { c with pos := max c.pos c.text.length }

/-! ## 2. The end of the text -/

def checkCounts : Conversion Unit := do
  let c ← get
  if c.numbers ≤ c.operators then
    throw (.malformed (.invalidOperatorCount c.operators c.numbers c.text.length))

/-- Moves the top of the stack to the output at the end of the text, where no group may be open. -/
def drainTop (watch : Option Observer) (stop : Nat) : Conversion Unit := do
  let entry ← pop
  if entry = opening then
    throw (.malformed (.unmatchedOpening stop))
  enqueue entry
  record watch stop entry .drain

def drain (watch : Option Observer) : Conversion Unit := do
  let c ← get
  times c.stack.size (drainTop watch c.text.length)

/-! ## 3. The whole conversion -/

/-- Converts the text from the position on, once in the life of a converter. -/
def convert (watch : Option Observer) : Conversion (Queue String) := do
  if (← get).started then throw .alreadyConverted
  modify fun c => { c with started := true }
  absorbText watch
  checkCounts
  drain watch
  return (← get).output

end Converter

/-! ## 4. Texts -/

def run (s : String) (watch : Option Observer := none) :
    EStateM.Result Fault Converter (Queue String) :=
  (Converter.convert watch).run (.ofString s)

def queueOf (s : String) : Except Fault (Queue String) :=
  match run s with
  | .ok q _ => .ok q
  | .error e _ => .error e

/-- The reverse Polish form of a text. -/
def toReversePolish (s : String) : Except Fault (List String) :=
  (queueOf s).map Queue.toList

/-- The converter at the end of a text, whether it was accepted or not. -/
def finish (s : String) (watch : Option Observer := none) : Converter :=
  match run s watch with
  | .ok _ c => c
  | .error _ c => c

/-- The events of the conversion of a text, also of one that fails. -/
def events (s : String) (watch : Option Observer := none) : List Event :=
  (finish s watch).log.toList

end ReversePolish
