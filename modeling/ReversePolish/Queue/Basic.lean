/-!
# Queue — first in, first out, within a capacity

The items are stored in the order in which they came, behind a head index that counts those handed out
since the storage was last cleared.  It is cleared when its last item leaves.  The capacity is any integer,
bounds the items still waiting and counts only when something is put in.
-/

namespace ReversePolish

/-- A queue of at most `capacity` items: those stored from index `head` on. -/
structure Queue (α : Type) where
  capacity : Int
  stored : Array α
  head : Nat
  head_le : head ≤ stored.size
  deriving Repr, DecidableEq

namespace Queue

variable {α β : Type}

inductive Error where
  | full (capacity : Int)
  | empty
  deriving Repr, DecidableEq

def Error.message : Error → String
  | full capacity => "queue is full (capacity " ++ toString capacity ++ ")"
  | empty => "dequeue from empty queue"

/-! ## 1. Operations -/

def ofCapacity (capacity : Int) : Queue α := ⟨capacity, #[], 0, Nat.le_refl 0⟩

/-- The items that wait, front first. -/
def toList (q : Queue α) : List α := q.stored.toList.drop q.head

def size (q : Queue α) : Nat := q.stored.size - q.head

def isFull (q : Queue α) : Bool := decide (q.capacity ≤ q.size)

/-- The queue with `a` at its end, whatever the capacity. -/
def append (q : Queue α) (a : α) : Queue α where
  capacity := q.capacity
  stored := q.stored.push a
  head := q.head
  head_le := by
    rw [Array.size_push]
    exact Nat.le_succ_of_le q.head_le

def enqueue (q : Queue α) (a : α) : Except Error (Queue α) :=
  if q.isFull then .error (.full q.capacity) else .ok (q.append a)

/-- Hands out the first `n` items, and clears the storage when none is left. -/
def drop (q : Queue α) (n : Nat) : Queue α :=
  if h : q.head + n < q.stored.size then ⟨q.capacity, q.stored, q.head + n, Nat.le_of_lt h⟩
  else ofCapacity q.capacity

def peek? (q : Queue α) : Option α := q.stored[q.head]?

def dequeue (q : Queue α) : Except Error (α × Queue α) :=
  match q.peek? with
  | none => .error .empty
  | some a => .ok (a, q.drop 1)

def map (f : α → β) (q : Queue α) : Queue β where
  capacity := q.capacity
  stored := q.stored.map f
  head := q.head
  head_le := by
    rw [Array.size_map]
    exact q.head_le

/-! ## 2. The list of items -/

theorem toList_ofCapacity (capacity : Int) : (ofCapacity capacity : Queue α).toList = [] := rfl

theorem size_eq_length_toList (q : Queue α) : q.size = q.toList.length := by
  simp [size, toList]

theorem peek?_eq_head?_toList (q : Queue α) : q.peek? = q.toList.head? := by
  simp [peek?, toList]

theorem toList_append (q : Queue α) (a : α) : (q.append a).toList = q.toList ++ [a] := by
  have h : q.head ≤ q.stored.toList.length := by
    rw [Array.length_toList]
    exact q.head_le
  simp [toList, append, List.drop_append_of_le_length h]

theorem toList_enqueue {q r : Queue α} {a : α} (h : q.enqueue a = .ok r) :
    r.toList = q.toList ++ [a] := by
  unfold enqueue at h
  split at h
  · contradiction
  · cases h
    exact toList_append q a

theorem toList_drop (q : Queue α) (n : Nat) : (q.drop n).toList = q.toList.drop n := by
  unfold drop
  split
  · simp [toList]
  · rename_i h
    have hall : q.stored.toList.length ≤ q.head + n := by
      rw [Array.length_toList]
      exact Nat.le_of_not_lt h
    rw [toList_ofCapacity, toList, List.drop_drop, List.drop_eq_nil_of_le hall]

theorem capacity_drop (q : Queue α) (n : Nat) : (q.drop n).capacity = q.capacity := by
  unfold drop
  split <;> rfl

theorem toList_drop_size (q : Queue α) : (q.drop q.size).toList = [] := by
  rw [toList_drop, size_eq_length_toList, List.drop_length]

theorem dequeue_of_nil {q : Queue α} (hq : q.toList = []) : q.dequeue = .error .empty := by
  rw [dequeue, peek?_eq_head?_toList, hq]
  rfl

theorem dequeue_of_cons {q : Queue α} {a : α} {rest : List α} (hq : q.toList = a :: rest) :
    q.dequeue = .ok (a, q.drop 1) := by
  rw [dequeue, peek?_eq_head?_toList, hq]
  rfl

theorem toList_dequeue {q r : Queue α} {a : α} (h : q.dequeue = .ok (a, r)) :
    q.toList = a :: r.toList := by
  cases hq : q.toList with
  | nil =>
    rw [dequeue_of_nil hq] at h
    contradiction
  | cons b rest =>
    rw [dequeue_of_cons hq] at h
    cases h
    rw [toList_drop, hq, List.drop_one, List.tail_cons]

end Queue

end ReversePolish
