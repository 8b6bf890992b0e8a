import ReversePolish.Converter.Run

/-!
# Session — moves of one converter, called one after the other

A call that fails does not end a session: the next call goes on from what the failed one left.
-/

namespace ReversePolish

namespace Converter

inductive Call where
  | convert
  | readNumber
  | placeOperator
  | closeGroup
  | current
  | advance (expected : Option String)
  | record (position : Int) (token : String) (action : Action)
  | moveTo (pos : Nat)
  | push (s : String)
  | pop
  | enqueue (s : String)
  | dequeue
  deriving Repr, DecidableEq

inductive Reply where
  | nothing
  | text (s : String)
  | texts (items : List String)
  deriving Repr, DecidableEq

def perform (watch : Option Observer) : Call → Conversion Reply
  | .convert => do return .texts (← convert watch).toList
  | .readNumber => do return .text (← readNumber)
  | .placeOperator => do placeOperator watch; return .nothing
  | .closeGroup => do closeGroup watch; return .nothing
  | .current => do return .text (String.singleton (← current))
  | .advance expected => do advance expected; return .nothing
  | .record position token action => do record watch position token action; return .nothing
  | .moveTo pos => do moveTo pos; return .nothing
  | .push s => do push s; return .nothing
  | .pop => do return .text (← pop)
  | .enqueue s => do enqueue s; return .nothing
  | .dequeue => do return .text (← dequeue)

/-- The result of a call, the converter after it, and the events that the call added. -/
structure Answer where
  result : Except Fault Reply
  after : Converter
  events : List Event

def answer (watch : Option Observer) (c : Converter) (call : Call) : Answer :=
  match (perform watch call).run c with
  | .ok reply after => ⟨.ok reply, after, after.log.toList.drop c.log.size⟩
  | .error fault after => ⟨.error fault, after, after.log.toList.drop c.log.size⟩

def session (watch : Option Observer) (c : Converter) : List Call → List Answer
  | [] => []
  | call :: calls => answer watch c call :: session watch (answer watch c call).after calls

end Converter

end ReversePolish
