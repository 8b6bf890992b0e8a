import ReversePolish.Hash
import ReversePolish.Registry.Basic

/-!
# Session — calls on the current registry

The current registry answers questions, refuses every edit, and is replaced by its unions and copies.
-/

namespace ReversePolish

namespace Registry

/-! ## 1. Calls -/

/-- A table that a call is given: a registry, or plain pairs of which the last of a key counts. -/
inductive Operand where
  | registry (r : Registry Value)
  | pairs (ps : List (String × Value))

def Operand.toRegistry : Operand → Registry Value
  | registry r => r
  | pairs ps => ofList ps

def unionWith (r : Registry Value) : Operand → Registry Value
  | .registry s => r.union s
  | .pairs ps => r.extend ps

/-- An attempt to change a registry in place. -/
inductive Edit where
  | set (key : String) (value : Value)
  | delete (key : String)
  | pop (key : String) (default : Option Value)
  | popItem
  | clear
  | update (operand : Operand)
  | merge (operand : Operand)
  | setDefault (key : String) (value : Value)

inductive Call where
  | get (key : String) (default : Value)
  | index (key : String)
  | contains (key : String)
  | size
  | keys
  | display
  | hash
  | edit (attempt : Edit)
  | union (operand : Operand)
  | unionValue (operand : Value)
  | unionOnto (ps : List (String × Value))
  | copy
  | ofKeys (keys : List String)
  | sameAs (operand : Operand)
  | sameHash (operand : Registry Value)

inductive Reply where
  | value (value : Value)
  | number (n : Nat)
  | truth (b : Bool)
  | names (names : List String)
  | text (s : String)
  | hashed
  | replaced
  | pairs (ps : List (String × Value))
  | copied (same : Bool) (shared : Bool)
  | registry (registry : Registry Value)

inductive Failure where
  | missingKey (key : String)
  | readOnly
  | unhashable (kind : String)
  | noTable (kind : String)
  deriving Repr, DecidableEq

def Failure.message : Failure → String
  | missingKey key => Text.quoted key
  | readOnly => "\x27FrozenDict\x27 does not support item assignment or removal"
  | unhashable kind => "unhashable type: " ++ Text.quoted kind
  | noTable kind => Text.quoted kind ++ " object is not a mapping"

/-! ## 2. Answers -/

variable [Hashing]

/-- The code of a key with its value; a value without a code is refused by its kind. -/
def entryCode (entry : String × Value) : Except Failure UInt64 :=
  match entry.2.code? with
  | some code => .ok (Hashing.ofTuple [Hashing.ofString entry.1, code])
  | none => .error (.unhashable entry.2.kindName)

/-- The code of the set of the entries. -/
def hash (r : Registry Value) : Except Failure UInt64 := do
  return Hashing.ofSet (← r.entries.mapM entryCode)

/-- Makes a call; the second part is the current registry after it. -/
def perform (r : Registry Value) : Call → Except Failure Reply × Registry Value
  | .get key default => (.ok (.value ((r.get? key).getD default)), r)
  | .index key =>
    match r.get? key with
    | some value => (.ok (.value value), r)
    | none => (.error (.missingKey key), r)
  | .contains key => (.ok (.truth (r.contains key)), r)
  | .size => (.ok (.number r.size), r)
  | .keys => (.ok (.names r.keys), r)
  | .display => (.ok (.text r.display), r)
  | .hash => (r.hash.map fun _ => .hashed, r)
  | .edit _ => (.error .readOnly, r)
  | .union operand => (.ok .replaced, r.unionWith operand)
  | .unionValue operand => (.error (.noTable operand.kindName), r)
  | .unionOnto ps => (.ok (.pairs ((ofList ps).overlay r).entries), r)
  | .copy => (.ok (.copied (r.same r) false), r)
  | .ofKeys [] => (.ok (.registry empty), r)
  | .ofKeys (_ :: _) => (.error .readOnly, r)
  | .sameAs operand => (.ok (.truth (r.same operand.toRegistry)), r)
  | .sameHash operand =>
    if r.same operand then
      -- only here are codes made, and a list among the values refused
      match r.hash, operand.hash with
      | .ok m, .ok n => (.ok (.truth (m == n)), r)
      | .error e, _ => (.error e, r)
      | _, .error e => (.error e, r)
    else (.ok (.truth false), r)

def session (r : Registry Value) : List Call → List (Except Failure Reply × Registry Value)
  | [] => []
  | call :: calls => r.perform call :: (r.perform call).2.session calls

end Registry

end ReversePolish
