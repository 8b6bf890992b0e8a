import ReversePolish.Value

/-!
# Hash — the codes of values

The code of a value is made of the codes of its parts, and values that are the same have the same code.  A list has
none.  What code a string or a number has is settled anew in every run, so the primitives are a parameter.
-/

namespace ReversePolish

/-- How codes are made.  In the code of a set the order of the members does not count. -/
class Hashing where
  ofNull : UInt64
  ofInt : Int → UInt64
  ofString : String → UInt64
  ofTuple : List UInt64 → UInt64
  ofSet : List UInt64 → UInt64
  ofSet_perm {codes codes' : List UInt64} : codes.Perm codes' → ofSet codes = ofSet codes'

/-- The codes of a run that is given no others. -/
instance Hashing.standard : Hashing where
  ofNull := 0
  ofInt := hash
  ofString := hash
  ofTuple := hash
  ofSet codes := codes.foldr (· + ·) 0
  ofSet_perm h := h.foldr_eq' (fun a _ b _ c => by rw [← UInt64.add_assoc, UInt64.add_comm b a, UInt64.add_assoc]) 0

variable [Hashing]

def Associativity.code (a : Associativity) : UInt64 := Hashing.ofString a.label

def Fixity.code (f : Fixity) : UInt64 :=
  Hashing.ofTuple [Hashing.ofInt f.precedence, f.associativity.code]

/-- The code of a value, where a truth value counts as its number. -/
def Value.code? : Value → Option UInt64
  | null => some Hashing.ofNull
  | bool b => some (Hashing.ofInt (if b then 1 else 0))
  | int n => some (Hashing.ofInt n)
  | str s => some (Hashing.ofString s)
  | fixity f => some f.code
  | list _ => none

end ReversePolish
