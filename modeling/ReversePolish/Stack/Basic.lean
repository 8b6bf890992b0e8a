/-!
# Stack — last in, first out, within a capacity

The entries are kept top first.  The capacity is any integer and counts only when something is pushed, so
a stack of a capacity below one takes nothing.
-/

namespace ReversePolish

/-- A stack of at most `capacity` entries, the top entry first. -/
structure Stack (α : Type) where
  capacity : Int
  entries : List α
  deriving Repr, DecidableEq

namespace Stack

variable {α : Type}

inductive Error where
  | full (capacity : Int)
  | empty
  deriving Repr, DecidableEq

def Error.message : Error → String
  | full capacity => "stack is full (capacity " ++ toString capacity ++ ")"
  | empty => "pop from empty stack"

/-! ## 1. Operations -/

def ofCapacity (capacity : Int) : Stack α := ⟨capacity, []⟩

def size (s : Stack α) : Nat := s.entries.length

/-- The entries, bottom first. -/
def toList (s : Stack α) : List α := s.entries.reverse

def isFull (s : Stack α) : Bool := decide (s.capacity ≤ s.size)

def push (s : Stack α) (a : α) : Except Error (Stack α) :=
  if s.isFull then .error (.full s.capacity) else .ok { s with entries := a :: s.entries }

def pop (s : Stack α) : Except Error (α × Stack α) :=
  match s.entries with
  | [] => .error .empty
  | a :: rest => .ok (a, { s with entries := rest })

def peek? (s : Stack α) : Option α := s.entries.head?

/-! ## 2. The list of entries -/

theorem size_eq_length_toList (s : Stack α) : s.size = s.toList.length := by
  simp [size, toList]

theorem toList_push {s t : Stack α} {a : α} (h : s.push a = .ok t) : t.toList = s.toList ++ [a] := by
  unfold push at h
  split at h
  · contradiction
  · cases h
    simp [toList]

end Stack

end ReversePolish
