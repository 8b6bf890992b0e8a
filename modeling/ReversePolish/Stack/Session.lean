import ReversePolish.Stack.Basic
import ReversePolish.Value

/-!
# Session — calls on a bounded stack, one after the other

A call answers with a reply or an error and leaves a stack; a call that fails leaves the stack as it was.
-/

namespace ReversePolish

namespace Stack

inductive Call where
  | push (item : Value)
  | pop
  | peek
  | size
  | toList
  | isNonempty
  | display
  | capacity
  | setCapacity (capacity : Int)

inductive Reply where
  | nothing
  | item (item : Value)
  | number (n : Int)
  | truth (b : Bool)
  | items (items : List Value)
  | text (s : String)

/-- A stack as a message shows it, bottom first. -/
def display (s : Stack Value) : String :=
  "<Stack " ++ Text.bracketed (s.toList.map Value.display) ++ ">"

def perform (s : Stack Value) : Call → Except Error Reply × Stack Value
  | .push item =>
    match s.push item with
    | .ok t => (.ok .nothing, t)
    | .error e => (.error e, s)
  | .pop =>
    match s.pop with
    | .ok (item, t) => (.ok (.item item), t)
    | .error e => (.error e, s)
  | .peek => (.ok (.item (s.peek?.getD .null)), s)
  | .size => (.ok (.number s.size), s)
  | .toList => (.ok (.items s.toList), s)
  | .isNonempty => (.ok (.truth (s.size != 0)), s)
  | .display => (.ok (.text s.display), s)
  | .capacity => (.ok (.number s.capacity), s)
  | .setCapacity capacity => (.ok .nothing, { s with capacity })

/-- Makes calls in turn; each answer comes with the stack after it. -/
def session (s : Stack Value) : List Call → List (Except Error Reply × Stack Value)
  | [] => []
  | call :: calls => s.perform call :: (s.perform call).2.session calls

end Stack

end ReversePolish
