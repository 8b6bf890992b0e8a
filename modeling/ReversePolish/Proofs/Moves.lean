import ReversePolish.Converter.Run
import Mathlib.Data.List.TakeWhile

/-!
# Moves — what the moves of a converter do while there is room

A move that finds room in the container that it fills does not fail, and the converter after it is the one
before it with a few fields replaced.
-/

namespace ReversePolish

/-! ## 1. Containers with room -/

namespace Queue

variable {α : Type}

/-- The queue with `items` at its end, whatever the capacity. -/
def extend (q : Queue α) (items : List α) : Queue α := items.foldl append q

theorem extend_nil (q : Queue α) : q.extend [] = q := rfl

theorem extend_cons (q : Queue α) (a : α) (items : List α) :
    q.extend (a :: items) = (q.append a).extend items := rfl

theorem extend_append (q : Queue α) (items more : List α) :
    q.extend (items ++ more) = (q.extend items).extend more := List.foldl_append

theorem capacity_extend (q : Queue α) (items : List α) : (q.extend items).capacity = q.capacity := by
  induction items generalizing q with
  | nil => rfl
  | cons a items ih => rw [extend_cons, ih]; rfl

theorem toList_extend (q : Queue α) (items : List α) : (q.extend items).toList = q.toList ++ items := by
  induction items generalizing q with
  | nil => rw [extend_nil, List.append_nil]
  | cons a items ih => rw [extend_cons, ih, toList_append, List.append_assoc, List.singleton_append]

theorem size_extend (q : Queue α) (items : List α) : (q.extend items).size = q.size + items.length := by
  rw [size_eq_length_toList, size_eq_length_toList, toList_extend, List.length_append]

theorem enqueue_of_lt {q : Queue α} (h : (q.size : Int) < q.capacity) (a : α) :
    q.enqueue a = .ok (q.append a) := by
  have hfull : q.isFull = false := decide_eq_false (by omega)
  rw [enqueue, hfull]
  rfl

theorem enqueue_of_ge {q : Queue α} (h : q.capacity ≤ q.size) (a : α) :
    q.enqueue a = .error (.full q.capacity) := by
  have hfull : q.isFull = true := decide_eq_true h
  rw [enqueue, hfull]
  rfl

end Queue

theorem Stack.push_of_lt {α : Type} {s : Stack α} (h : (s.size : Int) < s.capacity) (a : α) :
    s.push a = .ok { s with entries := a :: s.entries } := by
  have hfull : s.isFull = false := decide_eq_false (by omega)
  rw [push, hfull]
  rfl

theorem Stack.push_of_ge {α : Type} {s : Stack α} (h : s.capacity ≤ s.size) (a : α) :
    s.push a = .error (.full s.capacity) := by
  have hfull : s.isFull = true := decide_eq_true h
  rw [push, hfull]
  rfl

/-! ## 2. Sequences of moves -/

namespace Converter

section

variable {α β : Type} {x y : Conversion α} {c c' : Converter}

theorem bind_of_ok {a : α} (h : x c = .ok a c') (f : α → Conversion β) : (x >>= f) c = f a c' := by
  show EStateM.bind x f c = _
  rw [EStateM.bind, h]

theorem bind_of_error {e : Fault} (h : x c = .error e c') (f : α → Conversion β) :
    (x >>= f) c = .error e c' := by
  show EStateM.bind x f c = _
  rw [EStateM.bind, h]

theorem bind_eq_bind (h : x c = y c') (f : α → Conversion β) : (x >>= f) c = (y >>= f) c' := by
  show EStateM.bind x f c = EStateM.bind y f c'
  rw [EStateM.bind, EStateM.bind, h]

end

variable {c : Converter} {watch : Option Observer}

theorem bind_get {α : Type} (f : Converter → Conversion α) : (get >>= f) c = f c c := rfl

/-! ## 3. Moves of the containers -/

theorem enqueue_of_room (h : (c.output.size : Int) < c.output.capacity) (s : String) :
    enqueue s c = .ok () { c with output := c.output.append s } := by
  rw [enqueue, Queue.enqueue_of_lt h]

theorem push_of_room (h : (c.stack.size : Int) < c.stack.capacity) (s : String) :
    push s c = .ok () { c with stack := { c.stack with entries := s :: c.stack.entries } } := by
  rw [push, Stack.push_of_lt h]

theorem push_of_full (h : (c.stack.size : Int) = c.stack.capacity) (s : String) :
    push s c = .error (.stack (.full c.stack.capacity)) c := by
  rw [push, Stack.push_of_ge (Int.le_of_eq h.symm)]

theorem pop_of_entries {s : String} {rest : List String} (h : c.stack.entries = s :: rest) :
    pop c = .ok s { c with stack := { c.stack with entries := rest } } := by
  rw [pop, Stack.pop, h]

theorem shift_of_room {s : String} {rest : List String} (h : c.stack.entries = s :: rest)
    (room : (c.output.size : Int) < c.output.capacity) :
    shift c = .ok () { c with
      output := c.output.append s
      stack := { c.stack with entries := rest } } := by
  rw [shift, bind_of_ok (pop_of_entries h), enqueue_of_room]
  exact room

-- An entry that finds no room is off the stack, but not in the output.
theorem shift_of_full {s : String} {rest : List String} (h : c.stack.entries = s :: rest)
    (full : (c.output.size : Int) = c.output.capacity) :
    shift c = .error (.queue (.full c.output.capacity)) { c with
      stack := { c.stack with entries := rest } } := by
  rw [shift, bind_of_ok (pop_of_entries h), enqueue]
  dsimp only
  rw [Queue.enqueue_of_ge (Int.le_of_eq full.symm)]

theorem times_shift_of_room {moved rest : List String} (h : c.stack.entries = moved ++ rest)
    (room : (c.output.size + moved.length : Int) ≤ c.output.capacity) :
    times moved.length shift c = .ok () { c with
      output := c.output.extend moved
      stack := { c.stack with entries := rest } } := by
  -- each shift takes one of the free places, so the rest still has room
  induction moved generalizing c with
  | nil =>
    rw [List.nil_append] at h
    rw [← h]
    rfl
  | cons s moved ih =>
    rw [List.length_cons] at room
    have hs := shift_of_room h (by omega)
    have hsize : (c.output.append s).size = c.output.size + 1 := c.output.size_extend [s]
    have hcapacity : (c.output.append s).capacity = c.output.capacity := rfl
    rw [List.length_cons, times, bind_of_ok hs, ih rfl (by rw [hsize, hcapacity]; omega)]
    rfl

theorem times_shift_of_full {moved rest : List String} {lost : String}
    (h : c.stack.entries = moved ++ lost :: rest)
    (full : (c.output.size + moved.length : Int) = c.output.capacity) (n : Nat) :
    times (moved.length + (n + 1)) shift c = .error (.queue (.full c.output.capacity)) { c with
      output := c.output.extend moved
      stack := { c.stack with entries := rest } } := by
  induction moved generalizing c with
  | nil =>
    rw [List.length_nil, Nat.zero_add, times, bind_of_error (shift_of_full h (by simpa using full))]
    rfl
  | cons s moved ih =>
    rw [List.length_cons] at full
    have hs := shift_of_room h (by omega)
    have hsize : (c.output.append s).size = c.output.size + 1 := c.output.size_extend [s]
    have hcapacity : (c.output.append s).capacity = c.output.capacity := rfl
    rw [List.length_cons, Nat.add_right_comm, times, bind_of_ok hs, ih rfl (by rw [hsize, hcapacity]; omega)]
    rfl

/-! ## 4. Operators and closing parentheses -/

theorem takeWhile_append_of_head {p : String → Bool} {moved rest : List String}
    (hmoved : ∀ s ∈ moved, p s = true) (hrest : ∀ s ∈ rest.head?, p s = false) :
    (moved ++ rest).takeWhile p = moved := by
  rw [List.takeWhile_append_of_pos hmoved]
  cases rest with
  | nil => rw [List.takeWhile_nil, List.append_nil]
  | cons s rest =>
    have hs := hrest s (by simp)
    rw [List.takeWhile_cons_of_neg (by simp [hs]), List.append_nil]

/-- What an operator does that nothing on the stack applies before any more. -/
def wait (watch : Option Observer) (op : Operator) (start : Nat) : Conversion Unit := do
  if let some entry := (← get).stack.peek? then
    unless isKnown entry do throw (.unknownOperator entry)
  push op.symbol
  record watch start op.symbol .operator

theorem wait_of_known (h : ∀ s ∈ c.stack.entries.head?, isKnown s = true) (op : Operator) (start : Nat) :
    wait watch op start c = (push op.symbol >>= fun _ => record watch start op.symbol .operator) c := by
  rw [wait, bind_get, Stack.peek?]
  cases hhead : c.stack.entries.head? with
  | none => rfl
  | some s =>
    show (if isKnown s = true then (push op.symbol >>= fun _ => record watch start op.symbol .operator)
      else _ : Conversion Unit) c = _
    rw [if_pos (h s hhead)]

theorem wait_of_unknown {s : String} {rest : List String} (h : c.stack.entries = s :: rest)
    (hs : isKnown s = false) (op : Operator) (start : Nat) :
    wait watch op start c = .error (.unknownOperator s) c := by
  rw [wait, bind_get, Stack.peek?, h]
  show (if isKnown s = true then _ else (throw (.unknownOperator s) >>= fun _ => _) : Conversion Unit) c = _
  rw [if_neg (by simp [hs])]
  rfl

theorem settle_eq {op : Operator} {start : Nat} {moved rest : List String}
    (h : c.stack.entries = moved ++ rest) (hmoved : ∀ s ∈ moved, settles op s = true)
    (hrest : ∀ s ∈ rest.head?, settles op s = false) :
    settle watch op start c = (times moved.length shift >>= fun _ => wait watch op start) c := by
  have htake : c.stack.entries.takeWhile (settles op) = moved := by
    rw [h]
    exact takeWhile_append_of_head hmoved hrest
  rw [settle, bind_get, htake]
  rfl

-- An operator moves the entries that apply before it, top first, and then waits itself.
theorem settle_of_room {op : Operator} {start : Nat} (moved rest : List String)
    (h : c.stack.entries = moved ++ rest) (hmoved : ∀ s ∈ moved, settles op s = true)
    (hrest : ∀ s ∈ rest.head?, settles op s = false ∧ isKnown s = true)
    (room : (c.output.size + moved.length : Int) ≤ c.output.capacity)
    (roomStack : (rest.length : Int) < c.stack.capacity) :
    settle watch op start c = record watch start op.symbol .operator { c with
      output := c.output.extend moved
      stack := { c.stack with entries := op.symbol :: rest } } := by
  rw [settle_eq h hmoved fun s hs => (hrest s hs).1, bind_of_ok (times_shift_of_room h room),
    wait_of_known fun s hs => (hrest s hs).2]
  apply bind_of_ok
  rw [push_of_room]
  exact roomStack

/-- What a closing parenthesis does when no entry lies above the innermost opening any more. -/
def leave (watch : Option Observer) (start : Nat) : Conversion Unit := do
  if (← get).stack.peek?.isNone then
    throw (.malformed (.mismatchedClosing start (← get).pos))
  discard pop
  record watch start closing .closing

theorem leave_of_entries {s : String} {rest : List String} (h : c.stack.entries = s :: rest) (start : Nat) :
    leave watch start c = record watch start closing .closing { c with
      stack := { c.stack with entries := rest } } := by
  have hpop : (discard pop : Conversion Unit) c = .ok () { c with stack := { c.stack with entries := rest } } := by
    show (pop >>= fun _ => pure ()) c = _
    rw [bind_of_ok (pop_of_entries h)]
    rfl
  rw [leave, bind_get, Stack.peek?, h]
  exact bind_of_ok hpop _

theorem leave_of_nil (h : c.stack.entries = []) (start : Nat) :
    leave watch start c = .error (.malformed (.mismatchedClosing start c.pos)) c := by
  rw [leave, bind_get, Stack.peek?, h]
  rfl

theorem closeAt_eq {start : Nat} {moved rest : List String} (h : c.stack.entries = moved ++ rest)
    (hmoved : ∀ s ∈ moved, (s != opening) = true) (hrest : ∀ s ∈ rest.head?, (s != opening) = false) :
    closeAt watch start c = (times moved.length shift >>= fun _ => leave watch start) c := by
  have htake : c.stack.entries.takeWhile (· != opening) = moved := by
    rw [h]
    exact takeWhile_append_of_head hmoved hrest
  rw [closeAt, bind_get, htake]
  rfl

-- A closing parenthesis moves what waits above the innermost opening, and the opening goes away.
theorem closeAt_of_room {start : Nat} (moved rest : List String)
    (h : c.stack.entries = moved ++ opening :: rest) (hmoved : ∀ s ∈ moved, (s != opening) = true)
    (room : (c.output.size + moved.length : Int) ≤ c.output.capacity) :
    closeAt watch start c = record watch start closing .closing { c with
      output := c.output.extend moved
      stack := { c.stack with entries := rest } } := by
  rw [closeAt_eq h hmoved (by simp), bind_of_ok (times_shift_of_room h room), leave_of_entries rfl]

-- A closing parenthesis without an opening moves the whole stack and then fails.
theorem closeAt_of_no_opening {start : Nat} (h : ∀ s ∈ c.stack.entries, (s != opening) = true)
    (room : (c.output.size + c.stack.size : Int) ≤ c.output.capacity) :
    closeAt watch start c = .error (.malformed (.mismatchedClosing start c.pos)) { c with
      output := c.output.extend c.stack.entries
      stack := { c.stack with entries := [] } } := by
  have hall : c.stack.entries = c.stack.entries ++ [] := (List.append_nil _).symm
  rw [closeAt_eq hall h (by simp), bind_of_ok (times_shift_of_room hall room), leave_of_nil rfl]

/-! ## 5. Reporting -/

def recorded (c : Converter) (position : Int) (token : String) (action : Action) : Converter :=
  { c with log := c.log.push ⟨position, token, action, c.output.toList, c.stack.entries⟩ }

/-- An observer that never stops a conversion. -/
def Silent (watch : Option Observer) : Prop :=
  ∀ log, (watch.bind fun observer => observer log) = none

theorem record_of_silent (silent : Silent watch) (position : Int) (token : String) (action : Action) :
    record watch position token action c = .ok () (c.recorded position token action) := by
  have hsilent := silent (c.log.push ⟨position, token, action, c.output.toList, c.stack.entries⟩)
  rw [record, hsilent]
  rfl

/-- An observer that lets the events `es` pass when they come one after the other. -/
def Passes (watch : Option Observer) (es : List Event) : Prop :=
  ∀ k < es.length, (watch.bind fun observer => observer (es.take (k + 1)).toArray) = none

/-- An observer that stops at number `n` of the events `es`, counted from one, and at none before; it lets
all of them pass if they are fewer. -/
def StopsAt (watch : Option Observer) (es : List Event) (n : Nat) (reason : String) : Prop :=
  ∀ k < es.length, k < n → (watch.bind fun observer => observer (es.take (k + 1)).toArray) =
    if k + 1 = n then some reason else none

instance (watch : Option Observer) (es : List Event) (n : Nat) (reason : String) :
    Decidable (StopsAt watch es n reason) :=
  inferInstanceAs (Decidable (∀ k < es.length, k < n → _ = _))

theorem Silent.passes (silent : Silent watch) (es : List Event) : Passes watch es :=
  fun _ _ => silent _

theorem StopsAt.passes {es : List Event} {n : Nat} {reason : String} (h : StopsAt watch es n reason)
    (hn : es.length < n) : Passes watch es := by
  intro k hk
  rw [h k hk (by omega), if_neg (by omega)]

theorem stopsAt_stopAt (es : List Event) (n : Nat) (reason : String) :
    StopsAt (some (Observer.stopAt n reason)) es n reason := by
  intro k hk _
  have hsize : (es.take (k + 1)).toArray.size = k + 1 := by
    rw [List.size_toArray, List.length_take]
    omega
  rw [Option.bind_some, Observer.stopAt, hsize]

-- When `e` is reported, the log holds the events `front` before it and `e` itself.
theorem take_succ_length (front : List Event) (e : Event) (rest : List Event) :
    (front ++ e :: rest).take (front.length + 1) = front ++ [e] := by
  rw [List.append_cons]
  exact List.take_left' (by simp)

theorem Passes.verdict {front rest : List Event} {e : Event} (h : Passes watch (front ++ e :: rest)) :
    (watch.bind fun observer => observer (front ++ [e]).toArray) = none := by
  rw [← take_succ_length front e rest]
  exact h front.length (by simp)

theorem StopsAt.verdict {front rest : List Event} {e : Event} {n : Nat} {reason : String}
    (h : StopsAt watch (front ++ e :: rest) n reason) (hn : front.length < n) :
    (watch.bind fun observer => observer (front ++ [e]).toArray) =
      if front.length + 1 = n then some reason else none := by
  rw [← take_succ_length front e rest]
  exact h front.length (by simp) hn

end Converter

end ReversePolish
