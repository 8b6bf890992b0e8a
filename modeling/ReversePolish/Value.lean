import ReversePolish.Fixity

/-!
# Value — what a container or a registry may hold

Values are null, truth values, integers, strings, fixities and lists of values.  Two values count as the
same across kinds where a truth value meets an integer: true is one and false is zero.
-/

namespace ReversePolish

inductive Value where
  | null
  | bool (b : Bool)
  | int (n : Int)
  | str (s : String)
  | fixity (f : Fixity)
  | list (items : List Value)

namespace Value

/-! ## 1. Sameness -/

/-- The number that a truth value or an integer stands for. -/
def number? : Value → Option Int
  | bool b => some (if b then 1 else 0)
  | int n => some n
  | _ => none

def sameLeaf : Value → Value → Bool
  | null, null => true
  | str a, str b => a == b
  | fixity a, fixity b => a == b
  | a, b =>
    match a.number?, b.number? with
    | some m, some n => m == n
    | _, _ => false

mutual

/-- Whether two values are the same. -/
def same : Value → Value → Bool
  | list as, list bs => sameAll as bs
  | a, b => sameLeaf a b

def sameAll : List Value → List Value → Bool
  | [], [] => true
  | a :: as, b :: bs => same a b && sameAll as bs
  | _, _ => false

end

/-! ## 2. Written form -/

mutual

/-- A value as a message shows it. -/
def display : Value → String
  | null => "None"
  | bool b => if b then "True" else "False"
  | int n => toString n
  | str s => Text.quoted s
  | fixity f => f.display
  | list items => Text.bracketed (displayAll items)

def displayAll : List Value → List String
  | [] => []
  | a :: as => display a :: displayAll as

end

/-! ## 3. Kinds -/

def kindName : Value → String
  | null => "NoneType"
  | bool _ => "bool"
  | int _ => "int"
  | str _ => "str"
  | fixity _ => "OperatorSpec"
  | list _ => "list"

/-- The associativity that a value names: only a label does. -/
def associativity? : Value → Option Associativity
  | str s => Associativity.ofLabel? s
  | _ => none

def notAssociativity (v : Value) : String :=
  v.display ++ " is not a valid Associativity"

end Value

end ReversePolish
