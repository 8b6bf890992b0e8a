import ReversePolish.Queue.Basic
import ReversePolish.Value

/-!
# Session — calls on a bounded queue and on the cursors over it

A cursor hands out whatever is at the front of the shared queue when it is asked.  A cursor that was asked
while the queue was empty has ended and stays so, whatever comes into the queue later.
-/

namespace ReversePolish

namespace Queue

/-! ## 1. Draining -/

/-- Looks for `item` from the front on: hands out all items up to the first that is the same, or all. -/
def seek (q : Queue Value) (item : Value) : Bool × Queue Value :=
  match q.toList.findIdx? (Value.same item) with
  | some i => (true, q.drop (i + 1))
  | none => (false, q.drop q.size)

/-! ## 2. Calls -/

/-- A call on a queue of values; cursors are counted from zero in the order of their making. -/
inductive Call where
  | enqueue (item : Value)
  | dequeue
  | peek
  | size
  | toList
  | isNonempty
  | display
  | capacity
  | setCapacity (capacity : Int)
  | drain
  | contains (item : Value)
  | newCursor
  | next (cursor : Nat)

inductive Reply where
  | nothing
  | item (item : Value)
  | number (n : Int)
  | truth (b : Bool)
  | items (items : List Value)
  | text (s : String)

inductive Failure where
  | queue (error : Error)
  | cursorEnded

/-- The text of a failure; the end of a cursor has none. -/
def Failure.message : Failure → String
  | queue error => error.message
  | cursorEnded => ""

def display (q : Queue Value) : String :=
  "<Queue " ++ Text.bracketed (q.toList.map Value.display) ++ ">"

/-- A queue that cursors read, and for each cursor whether it has ended. -/
structure Shared where
  queue : Queue Value
  ended : List Bool

namespace Shared

def ofQueue (queue : Queue Value) : Shared := ⟨queue, []⟩

def next (d : Shared) (cursor : Nat) : Except Failure Reply × Shared :=
  if d.ended[cursor]? = some false then
    match d.queue.dequeue with
    | .ok (item, queue) => (.ok (.item item), { d with queue })
    | .error _ => (.error .cursorEnded, { d with ended := d.ended.set cursor true })
  else (.error .cursorEnded, d)

def perform (d : Shared) : Call → Except Failure Reply × Shared
  | .enqueue item =>
    match d.queue.enqueue item with
    | .ok queue => (.ok .nothing, { d with queue })
    | .error e => (.error (.queue e), d)
  | .dequeue =>
    match d.queue.dequeue with
    | .ok (item, queue) => (.ok (.item item), { d with queue })
    | .error e => (.error (.queue e), d)
  | .peek => (.ok (.item (d.queue.peek?.getD .null)), d)
  | .size => (.ok (.number d.queue.size), d)
  | .toList => (.ok (.items d.queue.toList), d)
  | .isNonempty => (.ok (.truth (d.queue.size != 0)), d)
  | .display => (.ok (.text d.queue.display), d)
  | .capacity => (.ok (.number d.queue.capacity), d)
  | .setCapacity capacity => (.ok .nothing, { d with queue := { d.queue with capacity } })
  | .drain => (.ok (.items d.queue.toList), { d with queue := d.queue.drop d.queue.size })
  | .contains item => (.ok (.truth (d.queue.seek item).1), { d with queue := (d.queue.seek item).2 })
  | .newCursor => (.ok (.number d.ended.length), { d with ended := d.ended ++ [false] })
  | .next cursor => d.next cursor

/-- Makes calls in turn; each answer comes with the queue and the cursors after it. -/
def session (d : Shared) : List Call → List (Except Failure Reply × Shared)
  | [] => []
  | call :: calls => d.perform call :: (d.perform call).2.session calls

end Shared

end Queue

end ReversePolish
