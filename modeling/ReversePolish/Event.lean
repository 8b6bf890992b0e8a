import ReversePolish.Text.Quoted

/-!
# Event — one reported move of a conversion

An event tells where a token stood, which it was, what was done with it, and what the output and the stack
hold after that.
-/

namespace ReversePolish

/-! ## 1. Actions -/

/-- What was done with a token; `other` names an action that only a caller reports. -/
inductive Action where
  | number
  | opening
  | closing
  | operator
  | drain
  | other (label : String)
  deriving Repr, DecidableEq

namespace Action

def label : Action → String
  | number => "number"
  | opening => "open"
  | closing => "close"
  | operator => "operator"
  | drain => "drain"
  | other label => label

def ofLabel (s : String) : Action :=
  ([number, opening, closing, operator, drain].find? (·.label = s)).getD (other s)

theorem label_ofLabel (s : String) : (ofLabel s).label = s := by
  unfold ofLabel
  cases h : [number, opening, closing, operator, drain].find? (·.label = s) with
  | none => rfl
  | some a => simpa using List.find?_some h

theorem ofLabel_label {a : Action} (h : ∀ label, a ≠ other label) : ofLabel a.label = a := by
  cases a with
  | other label => exact absurd rfl (h label)
  | number | opening | closing | operator | drain => decide

end Action

/-! ## 2. Events -/

/-- A move: position, token and action, then the output front first and the stack top first. -/
structure Event where
  position : Int
  token : String
  action : Action
  output : List String
  stack : List String
  deriving Repr, DecidableEq

namespace Event

/-- The two lists of an event as a message shows them, the stack bottom first. -/
def containers (e : Event) : String :=
  "output=" ++ Text.quotedList e.output ++ " stack=" ++ Text.quotedList e.stack.reverse

def logMessage (e : Event) : String :=
  "on token " ++ Text.quoted e.token ++ " (" ++ e.action.label ++ "): " ++ e.containers

def display (e : Event) : String :=
  "<Step " ++ e.action.label ++ " " ++ Text.quoted e.token ++ " @" ++ toString e.position ++ " " ++
    e.containers ++ ">"

end Event

/-- Looks at all events so far, the newest last, and may give a reason to stop the conversion. -/
abbrev Observer := Array Event → Option String

/-- The observer that stops at the event of number `n`, counted from one. -/
def Observer.stopAt (n : Nat) (reason : String) : Observer := fun log =>
  if log.size = n then some reason else none

end ReversePolish
