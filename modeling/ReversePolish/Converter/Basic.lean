import ReversePolish.Token
import ReversePolish.Fault
import ReversePolish.Event

/-!
# Converter — the state of a conversion and its moves

A converter walks over a text with an output queue and an operator stack.  A number goes to the output at
once.  An operator first settles with the stack: the waiting operators that apply before it go to the
output; then it waits itself.  A closing parenthesis sends what waits inside its group to the output.

Each move is a `Conversion`: it changes the converter and may fail, and a failed move keeps what it had
changed before the failure.
-/

namespace ReversePolish

/-! ## 1. State -/

/-- The state of a conversion: the text and the position in it, the two containers, how many operators and
numbers were read, whether the whole conversion was started, and the events so far. -/
structure Converter where
  text : List Char
  pos : Nat
  output : Queue String
  stack : Stack String
  operators : Nat
  numbers : Nat
  started : Bool
  log : Array Event
  deriving Repr, DecidableEq

abbrev Conversion (α : Type) : Type := EStateM Fault Converter α

namespace Converter

/-- A fresh converter: both containers are empty and hold as many entries as the text has characters. -/
def ofString (s : String) : Converter where
  text := s.toList
  pos := 0
  output := .ofCapacity s.toList.length
  stack := .ofCapacity s.toList.length
  operators := 0
  numbers := 0
  started := false
  log := #[]

/-! ## 2. Moves of the containers -/

def enqueue (s : String) : Conversion Unit := fun c =>
  match c.output.enqueue s with
  | .ok output => .ok () { c with output }
  | .error e => .error (.queue e) c

def dequeue : Conversion String := fun c =>
  match c.output.dequeue with
  | .ok (s, output) => .ok s { c with output }
  | .error e => .error (.queue e) c

def push (s : String) : Conversion Unit := fun c =>
  match c.stack.push s with
  | .ok stack => .ok () { c with stack }
  | .error e => .error (.stack e) c

def pop : Conversion String := fun c =>
  match c.stack.pop with
  | .ok (s, stack) => .ok s { c with stack }
  | .error e => .error (.stack e) c

/-- Moves the top of the stack to the end of the output; if the output is full, the entry is lost. -/
def shift : Conversion Unit := do
  enqueue (← pop)

def times : Nat → Conversion Unit → Conversion Unit
  | 0, _ => pure ()
  | n + 1, move => do
    move
    times n move

/-! ## 3. Moves in the text -/

def current : Conversion Char := fun c =>
  match c.text[c.pos]? with
  | some ch => .ok ch c
  | none => .error (.pastEnd c.pos) c

def moveTo (pos : Nat) : Conversion Unit := fun c => .ok () { c with pos }

/-- Goes one character on; with an expectation, only if the character at the position is the expected
string. -/
def advance (expected : Option String) : Conversion Unit := do
  if let some s := expected then
    let ch ← current
    if String.singleton ch ≠ s then
      throw (.malformed (.unexpectedToken s ch (← get).pos))
  moveTo ((← get).pos + 1)

/-! ## 4. Reporting -/

/-- Records an event with the containers as they are, then asks the observer. -/
def record (watch : Option Observer) (position : Int) (token : String) (action : Action) :
    Conversion Unit := fun c =>
  let log := c.log.push ⟨position, token, action, c.output.toList, c.stack.entries⟩
  match watch.bind fun observer => observer log with
  | none => .ok () { c with log }
  | some reason => .error (.stopped reason) { c with log }

/-! ## 5. What a token does -/

/-- Whether the stack entry `entry` goes to the output before `incoming` is put on the stack. -/
def settles (incoming : Operator) (entry : String) : Bool :=
  match Operator.ofSymbol? entry with
  | some waiting => waiting.appliesBefore incoming
  | none => false

def isKnown (entry : String) : Bool :=
  entry == opening || (Operator.ofSymbol? entry).isSome

/-- Lets the operator `op`, read at `start`, settle with the stack and then wait on it. -/
def settle (watch : Option Observer) (op : Operator) (start : Nat) : Conversion Unit := do
  times ((← get).stack.entries.takeWhile (settles op)).length shift
  if let some entry := (← get).stack.peek? then
    unless isKnown entry do throw (.unknownOperator entry)
  push op.symbol
  record watch start op.symbol .operator

/-- Closes the innermost group, at the parenthesis at `start`: what waits above its opening goes to the
output, and the opening goes away. -/
def closeAt (watch : Option Observer) (start : Nat) : Conversion Unit := do
  times ((← get).stack.entries.takeWhile (· != opening)).length shift
  if (← get).stack.peek?.isNone then
    throw (.malformed (.mismatchedClosing start (← get).pos))
  discard pop
  record watch start closing .closing

/-! ## 6. Single moves from any position -/

/-- Reads the rest of a number, which may be empty, and counts a number. -/
def readNumber : Conversion String := fun c =>
  let run := numberRun (c.text.drop c.pos)
  .ok (String.ofList run) { c with pos := c.pos + run.length, numbers := c.numbers + 1 }

def placeOperator (watch : Option Observer) : Conversion Unit := do
  let start := (← get).pos
  let ch ← current
  advance none
  match Operator.ofChar? ch with
  | some op => settle watch op start
  | none => throw (.unknownOperator (String.singleton ch))

def closeGroup (watch : Option Observer) : Conversion Unit := do
  let start := (← get).pos
  advance (some closing)
  closeAt watch start

end Converter

end ReversePolish
