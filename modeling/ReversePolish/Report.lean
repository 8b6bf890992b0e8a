import ReversePolish.Converter.Run

/-!
# Report — the events of a conversion as rows of cells
-/

namespace ReversePolish

/-! ## 1. Rows -/

def spaced (items : List String) : String :=
  " ".intercalate items

/-- One event as a row: the position, the token, the word for the action, and the output and the stack
(bottom first) as single cells. -/
structure Row where
  position : Int
  token : String
  action : String
  output : String
  stack : String
  deriving Repr, DecidableEq

namespace Row

def ofEvent (e : Event) : Row :=
  ⟨e.position, e.token, e.action.label, spaced e.output, spaced e.stack.reverse⟩

def columns : List String := ["position", "token", "action", "output", "stack"]

def cells (r : Row) : List String :=
  [toString r.position, r.token, r.action, r.output, r.stack]

end Row

/-! ## 2. The report on a text -/

/-- The rows of the conversion of an accepted text, one for each event. -/
def report (s : String) : Except Fault (List Row) :=
  match run s with
  | .ok _ c => .ok (c.log.toList.map Row.ofEvent)
  | .error e _ => .error e

end ReversePolish
