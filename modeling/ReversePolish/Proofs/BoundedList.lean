import ReversePolish.Stack.Session
import ReversePolish.Proofs.Handout
import ReversePolish.Proofs.Moves

/-!
# Bounded list — a stack and a queue are one list with a limit

Both containers are lists that grow at their end as long as they are shorter than the capacity of the moment.  What
leaves a stack is the item that came last, what leaves a queue the one that came first.  Whatever calls are made in
turn, each container answers as its list does.  The storage of a queue is empty or ends behind its head.
-/

namespace ReversePolish

/-! ## 1. The list -/

/-- A list of values that takes a further one if it is shorter than its capacity. -/
structure BoundedList where
  capacity : Int
  items : List Value

namespace BoundedList

/-- Which item leaves first. -/
inductive Discipline where
  | lastIn
  | firstIn

inductive Request where
  | insert (item : Value)
  | remove
  | peek
  | size
  | toList
  | setCapacity (capacity : Int)

inductive Answer where
  | nothing
  | item (item : Value)
  | number (n : Int)
  | items (items : List Value)
  | full (capacity : Int)
  | empty

def Answer.refuses : Answer → Bool
  | full _ => true
  | empty => true
  | _ => false

def Discipline.next? : Discipline → List Value → Option Value
  | lastIn, items => items.getLast?
  | firstIn, items => items.head?

def Discipline.others : Discipline → List Value → List Value
  | lastIn, items => items.dropLast
  | firstIn, items => items.tail

variable {order : Discipline} {b : BoundedList}

def serve (order : Discipline) (b : BoundedList) : Request → Answer × BoundedList
  | .insert item =>
    if b.capacity ≤ b.items.length then (.full b.capacity, b)
    else (.nothing, { b with items := b.items ++ [item] })
  | .remove =>
    match order.next? b.items with
    | some item => (.item item, { b with items := order.others b.items })
    | none => (.empty, b)
  | .peek => (.item ((order.next? b.items).getD .null), b)
  | .size => (.number b.items.length, b)
  | .toList => (.items b.items, b)
  | .setCapacity capacity => (.nothing, { b with capacity })

/-- Answers requests in turn; each answer comes with the list after it. -/
def session (order : Discipline) (b : BoundedList) : List Request → List (Answer × BoundedList)
  | [] => []
  | request :: requests => b.serve order request :: (b.serve order request).2.session order requests

theorem serve_insert_of_ge (h : b.capacity ≤ b.items.length) (a : Value) :
    b.serve order (.insert a) = (.full b.capacity, b) :=
  if_pos h

theorem serve_insert_of_lt (h : (b.items.length : Int) < b.capacity) (a : Value) :
    b.serve order (.insert a) = (.nothing, { b with items := b.items ++ [a] }) :=
  if_neg (Int.not_le.2 h)

theorem serve_remove_of_none (h : order.next? b.items = none) : b.serve order .remove = (.empty, b) := by
  rw [serve, h]

theorem serve_remove_of_some {a : Value} (h : order.next? b.items = some a) :
    b.serve order .remove = (.item a, { b with items := order.others b.items }) := by
  rw [serve, h]

theorem next?_eq_none_iff (order : Discipline) {items : List Value} : order.next? items = none ↔ items = [] := by
  cases order with
  | lastIn => exact List.getLast?_eq_none_iff
  | firstIn => exact List.head?_eq_none_iff

theorem length_others_le (order : Discipline) (items : List Value) :
    (order.others items).length ≤ items.length := by
  cases order <;> simp [Discipline.others]

-- A list that is not longer than its capacity does not get longer, unless the capacity is changed.
theorem length_serve_le (order : Discipline) {request : Request} (hrequest : ∀ n, request ≠ .setCapacity n)
    (hb : (b.items.length : Int) ≤ b.capacity) :
    (b.serve order request).2.capacity = b.capacity ∧
      ((b.serve order request).2.items.length : Int) ≤ b.capacity := by
  cases request with
  | insert a =>
    rcases Int.lt_or_le (b.items.length : Int) b.capacity with hroom | hfull
    · rw [serve_insert_of_lt hroom, List.length_append, List.length_singleton]
      exact ⟨rfl, by omega⟩
    · rw [serve_insert_of_ge hfull]
      exact ⟨rfl, hb⟩
  | remove =>
    cases hnext : order.next? b.items with
    | none =>
      rw [serve_remove_of_none hnext]
      exact ⟨rfl, hb⟩
    | some a =>
      rw [serve_remove_of_some hnext]
      exact ⟨rfl, Int.le_trans (Int.ofNat_le.2 (length_others_le order _)) hb⟩
  | setCapacity n => exact absurd rfl (hrequest n)
  | peek | size | toList => exact ⟨rfl, hb⟩

theorem length_session_le {requests : List Request} (hrequests : ∀ n, .setCapacity n ∉ requests)
    (hb : (b.items.length : Int) ≤ b.capacity) :
    ∀ a ∈ b.session order requests, (a.2.items.length : Int) ≤ b.capacity := by
  induction requests generalizing b with
  | nil => simp [session]
  | cons request requests ih =>
    simp only [List.mem_cons, not_or] at hrequests
    obtain ⟨hcapacity, hlength⟩ := length_serve_le order (fun n h => (hrequests n).1 h.symm) hb
    rw [session, List.forall_mem_cons]
    refine ⟨hlength, ?_⟩
    rw [← hcapacity] at hlength ⊢
    exact ih (fun n => (hrequests n).2) hlength

/-! ## 2. Containers that stand for lists -/

section

variable {σ ε ρ : Type} {ask : σ → Request → Except ε ρ × σ} {tell : Answer → Except ε ρ} {list : σ → BoundedList}

/-- A container, in a state `s` of which the list `list s` stands: `ask` answers a request and `tell` is the form
of its answers. -/
structure Serves (order : Discipline) (ask : σ → Request → Except ε ρ × σ) (tell : Answer → Except ε ρ)
    (list : σ → BoundedList) : Prop where
  /-- It answers as the list. -/
  answer : ∀ s request, (ask s request).1 = tell ((list s).serve order request).1
  /-- It holds what is left in the list. -/
  left : ∀ s request, list (ask s request).2 = ((list s).serve order request).2
  insert_fails_iff : ∀ s item, (∃ e, (ask s (.insert item)).1 = .error e) ↔
    (list s).capacity ≤ (list s).items.length
  remove_fails_iff : ∀ s, (∃ e, (ask s .remove).1 = .error e) ↔ (list s).items = []
  /-- Nothing is removed by a look at the next item. -/
  peek : ∀ s, (list s).items = [] ∧ ask s .peek = (tell (.item .null), s) ∨
    ∃ item, (ask s .remove).1 = tell (.item item) ∧ ask s .peek = (tell (.item item), s)
  /-- A failure changes nothing. -/
  failed : ∀ s request e, (ask s request).1 = .error e → (ask s request).2 = s

theorem serves_of_answers (answer : ∀ s request, (ask s request).1 = tell ((list s).serve order request).1)
    (left : ∀ s request, list (ask s request).2 = ((list s).serve order request).2)
    (refuses : ∀ a, (∃ e, tell a = .error e) ↔ a.refuses = true)
    (peeked : ∀ s, (ask s .peek).2 = s)
    (failed : ∀ s request e, (ask s request).1 = .error e → (ask s request).2 = s) :
    Serves order ask tell list where
  answer := answer
  left := left
  insert_fails_iff s a := by
    rw [answer, refuses]
    rcases Int.lt_or_le (list s).items.length (list s).capacity with hroom | hfull
    · rw [serve_insert_of_lt hroom]
      exact ⟨nofun, fun hfull => absurd hfull (Int.not_le.2 hroom)⟩
    · rw [serve_insert_of_ge hfull]
      exact ⟨fun _ => hfull, fun _ => rfl⟩
  remove_fails_iff s := by
    rw [answer, refuses, ← next?_eq_none_iff order]
    cases hnext : order.next? (list s).items with
    | none =>
      rw [serve_remove_of_none hnext]
      exact ⟨fun _ => rfl, fun _ => rfl⟩
    | some a =>
      rw [serve_remove_of_some hnext]
      exact ⟨nofun, nofun⟩
  peek s := by
    have hpeek : ask s .peek = (tell (.item ((order.next? (list s).items).getD .null)), s) :=
      Prod.ext (answer s .peek) (peeked s)
    cases hnext : order.next? (list s).items with
    | none =>
      rw [hnext] at hpeek
      exact .inl ⟨(next?_eq_none_iff order).1 hnext, hpeek⟩
    | some a =>
      rw [hnext] at hpeek
      refine .inr ⟨a, ?_, hpeek⟩
      rw [answer, serve_remove_of_some hnext]
  failed := failed

section

variable {run : σ → List Request → List (Except ε ρ × σ)} (h : Serves order ask tell list) (nil : ∀ s, run s [] = [])
  (cons : ∀ s request requests, run s (request :: requests) = ask s request :: run (ask s request).2 requests)

include h nil cons

-- Request by request the container answers as its list, and stands for what is left of it.
theorem Serves.run_eq (s : σ) (requests : List Request) :
    (run s requests).map (fun a => (a.1, list a.2)) =
      ((list s).session order requests).map (fun a => (tell a.1, a.2)) := by
  induction requests generalizing s with
  | nil =>
    rw [nil, session]
    rfl
  | cons request requests ih => rw [cons, session, List.map_cons, List.map_cons, h.answer, ih, h.left]

theorem Serves.length_run_le {s : σ} {requests : List Request} (hrequests : ∀ n, .setCapacity n ∉ requests)
    (hs : ((list s).items.length : Int) ≤ (list s).capacity) :
    ∀ a ∈ run s requests, ((list a.2).items.length : Int) ≤ (list s).capacity := by
  intro a ha
  have hmem : (a.1, list a.2) ∈ (run s requests).map (fun a => (a.1, list a.2)) := List.mem_map_of_mem ha
  rw [h.run_eq nil cons, List.mem_map] at hmem
  obtain ⟨b, hb, heq⟩ := hmem
  rw [← (Prod.mk.inj heq).2]
  exact length_session_le hrequests hs b hb

end

end

end BoundedList

/-! ## 3. Stacks -/

namespace BoundedList

def Request.onStack : Request → Stack.Call
  | insert a => .push a
  | remove => .pop
  | peek => .peek
  | size => .size
  | toList => .toList
  | setCapacity capacity => .setCapacity capacity

def Answer.ofStack : Answer → Except Stack.Error Stack.Reply
  | nothing => .ok .nothing
  | item a => .ok (.item a)
  | number n => .ok (.number n)
  | items as => .ok (.items as)
  | full capacity => .error (.full capacity)
  | empty => .error .empty

end BoundedList

namespace Stack

open BoundedList

def ask (s : Stack Value) (request : Request) : Except Error Reply × Stack Value := s.perform request.onStack

def askAll (s : Stack Value) (requests : List Request) : List (Except Error Reply × Stack Value) :=
  s.session (requests.map Request.onStack)

/-- The list that a stack stands for. -/
def bounded (s : Stack Value) : BoundedList := ⟨s.capacity, s.toList⟩

theorem length_items_bounded (s : Stack Value) : s.bounded.items.length = s.size :=
  (size_eq_length_toList s).symm

theorem next?_bounded (s : Stack Value) : Discipline.lastIn.next? s.bounded.items = s.peek? :=
  List.getLast?_reverse

theorem ask_eq (s : Stack Value) (request : Request) :
    (s.ask request).1 = (s.bounded.serve .lastIn request).1.ofStack ∧
      (s.ask request).2.bounded = (s.bounded.serve .lastIn request).2 := by
  cases request with
  | insert a =>
    rw [ask, Request.onStack, perform]
    rcases Int.lt_or_le (s.size : Int) s.capacity with hroom | hfull
    · have hpush := push_of_lt hroom a
      rw [← length_items_bounded] at hroom
      rw [hpush, serve_insert_of_lt hroom]
      exact ⟨rfl, congrArg (BoundedList.mk s.capacity) (toList_push hpush)⟩
    · have hpush := push_of_ge hfull a
      rw [← length_items_bounded] at hfull
      rw [hpush, serve_insert_of_ge hfull]
      exact ⟨rfl, rfl⟩
  | remove =>
    rw [ask, Request.onStack, perform, pop]
    have hnext := next?_bounded s
    rw [peek?] at hnext
    cases hentries : s.entries with
    | nil =>
      rw [hentries] at hnext
      rw [serve_remove_of_none hnext]
      exact ⟨rfl, rfl⟩
    | cons a rest =>
      rw [hentries] at hnext
      rw [serve_remove_of_some hnext]
      refine ⟨rfl, congrArg (BoundedList.mk s.capacity) ?_⟩
      show rest.reverse = s.entries.reverse.dropLast
      rw [hentries, List.reverse_cons, List.dropLast_concat]
  | peek =>
    rw [ask, Request.onStack, perform, ← next?_bounded]
    exact ⟨rfl, rfl⟩
  | size =>
    rw [ask, Request.onStack, perform, ← length_items_bounded]
    exact ⟨rfl, rfl⟩
  | toList => exact ⟨rfl, rfl⟩
  | setCapacity n => exact ⟨rfl, rfl⟩

theorem ask_of_error {s : Stack Value} {request : Request} {e : Error} (h : (s.ask request).1 = .error e) :
    (s.ask request).2 = s := by
  cases request with
  | insert a =>
    rw [ask, Request.onStack, perform] at h ⊢
    cases hpush : s.push a with
    | ok t => simp [hpush] at h
    | error e => rfl
  | remove =>
    rw [ask, Request.onStack, perform] at h ⊢
    cases hpop : s.pop with
    | ok r => simp [hpop] at h
    | error e => rfl
  | peek | size | toList | setCapacity => cases h

theorem serves : Serves .lastIn ask Answer.ofStack bounded :=
  serves_of_answers (fun s request => (ask_eq s request).1) (fun s request => (ask_eq s request).2)
    (fun a => by cases a <;> simp [Answer.ofStack, Answer.refuses]) (fun _ => rfl) fun _ _ _ => ask_of_error

theorem askAll_eq (s : Stack Value) (requests : List Request) :
    (s.askAll requests).map (fun a => (a.1, a.2.bounded)) =
      (s.bounded.session .lastIn requests).map (fun a => (a.1.ofStack, a.2)) :=
  serves.run_eq (fun _ => rfl) (fun _ _ _ => rfl) s requests

theorem size_askAll_le {s : Stack Value} {requests : List Request} (hrequests : ∀ n, .setCapacity n ∉ requests)
    (hs : (s.size : Int) ≤ s.capacity) : ∀ a ∈ s.askAll requests, (a.2.size : Int) ≤ s.capacity := by
  intro a ha
  rw [← length_items_bounded] at hs ⊢
  exact serves.length_run_le (fun _ => rfl) (fun _ _ _ => rfl) hrequests hs a ha

end Stack

/-! ## 4. Queues -/

namespace BoundedList

def Request.onQueue : Request → Queue.Call
  | insert a => .enqueue a
  | remove => .dequeue
  | peek => .peek
  | size => .size
  | toList => .toList
  | setCapacity capacity => .setCapacity capacity

def Answer.ofQueue : Answer → Except Queue.Failure Queue.Reply
  | nothing => .ok .nothing
  | item a => .ok (.item a)
  | number n => .ok (.number n)
  | items as => .ok (.items as)
  | full capacity => .error (.queue (.full capacity))
  | empty => .error (.queue .empty)

end BoundedList

namespace Queue

/-- Nothing is stored and the head is zero, or the head stands at an item. -/
def HeadInRange {α : Type} (q : Queue α) : Prop := q.head = 0 ∧ q.stored.size = 0 ∨ q.head < q.stored.size

section

variable {α : Type}

theorem headInRange_ofCapacity (capacity : Int) : (ofCapacity capacity : Queue α).HeadInRange := .inl ⟨rfl, rfl⟩

theorem headInRange_append (q : Queue α) (a : α) : (q.append a).HeadInRange := by
  right
  rw [append, Array.size_push]
  exact Nat.lt_succ_of_le q.head_le

theorem headInRange_drop (q : Queue α) (n : Nat) : (q.drop n).HeadInRange := by
  unfold drop
  split
  · rename_i h
    exact .inr h
  · exact headInRange_ofCapacity _

end

namespace Shared

open BoundedList

def ask (d : Shared) (request : Request) : Except Failure Reply × Shared := d.perform request.onQueue

def askAll (d : Shared) (requests : List Request) : List (Except Failure Reply × Shared) :=
  d.session (requests.map Request.onQueue)

/-- The list that a queue stands for. -/
def bounded (d : Shared) : BoundedList := ⟨d.queue.capacity, d.queue.toList⟩

theorem length_items_bounded (d : Shared) : d.bounded.items.length = d.queue.size :=
  (size_eq_length_toList d.queue).symm

theorem next?_bounded (d : Shared) : Discipline.firstIn.next? d.bounded.items = d.queue.peek? :=
  (peek?_eq_head?_toList d.queue).symm

theorem ask_eq (d : Shared) (request : Request) :
    (d.ask request).1 = (d.bounded.serve .firstIn request).1.ofQueue ∧
      (d.ask request).2.bounded = (d.bounded.serve .firstIn request).2 := by
  cases request with
  | insert a =>
    rw [ask, Request.onQueue, perform]
    rcases Int.lt_or_le (d.queue.size : Int) d.queue.capacity with hroom | hfull
    · have henqueue := enqueue_of_lt hroom a
      rw [← length_items_bounded] at hroom
      rw [henqueue, serve_insert_of_lt hroom]
      exact ⟨rfl, congrArg (BoundedList.mk d.queue.capacity) (toList_append _ _)⟩
    · have henqueue := enqueue_of_ge hfull a
      rw [← length_items_bounded] at hfull
      rw [henqueue, serve_insert_of_ge hfull]
      exact ⟨rfl, rfl⟩
  | remove =>
    rw [ask, Request.onQueue, perform]
    have hnext := next?_bounded d
    rw [peek?_eq_head?_toList] at hnext
    cases hq : d.queue.toList with
    | nil =>
      rw [hq] at hnext
      rw [dequeue_of_nil hq, serve_remove_of_none hnext]
      exact ⟨rfl, rfl⟩
    | cons a rest =>
      rw [hq] at hnext
      rw [dequeue_of_cons hq, serve_remove_of_some hnext]
      refine ⟨rfl, ?_⟩
      rw [bounded, capacity_drop, toList_drop, List.drop_one]
      rfl
  | peek =>
    rw [ask, Request.onQueue, perform, ← next?_bounded]
    exact ⟨rfl, rfl⟩
  | size =>
    rw [ask, Request.onQueue, perform, ← length_items_bounded]
    exact ⟨rfl, rfl⟩
  | toList => exact ⟨rfl, rfl⟩
  | setCapacity n => exact ⟨rfl, rfl⟩

theorem ask_of_error {d : Shared} {request : Request} {e : Failure} (h : (d.ask request).1 = .error e) :
    (d.ask request).2 = d := by
  cases request with
  | insert a =>
    rw [ask, Request.onQueue, perform] at h ⊢
    cases henqueue : d.queue.enqueue a with
    | ok t => simp [henqueue] at h
    | error e => rfl
  | remove =>
    rw [ask, Request.onQueue, perform] at h ⊢
    cases hdequeue : d.queue.dequeue with
    | ok r => simp [hdequeue] at h
    | error e => rfl
  | peek | size | toList | setCapacity => cases h

theorem serves : Serves .firstIn ask Answer.ofQueue bounded :=
  serves_of_answers (fun d request => (ask_eq d request).1) (fun d request => (ask_eq d request).2)
    (fun a => by cases a <;> simp [Answer.ofQueue, Answer.refuses]) (fun _ => rfl) fun _ _ _ => ask_of_error

theorem askAll_eq (d : Shared) (requests : List Request) :
    (d.askAll requests).map (fun a => (a.1, a.2.bounded)) =
      (d.bounded.session .firstIn requests).map (fun a => (a.1.ofQueue, a.2)) :=
  serves.run_eq (fun _ => rfl) (fun _ _ _ => rfl) d requests

theorem size_askAll_le {d : Shared} {requests : List Request} (hrequests : ∀ n, .setCapacity n ∉ requests)
    (hd : (d.queue.size : Int) ≤ d.queue.capacity) :
    ∀ a ∈ d.askAll requests, (a.2.queue.size : Int) ≤ d.queue.capacity := by
  intro a ha
  rw [← length_items_bounded] at hd ⊢
  exact serves.length_run_le (fun _ => rfl) (fun _ _ _ => rfl) hrequests hd a ha

-- Also the cursors, a drain and a search leave the head in its range.
theorem headInRange_perform {d : Shared} (h : d.queue.HeadInRange) (call : Call) :
    (d.perform call).2.queue.HeadInRange := by
  cases call with
  | enqueue a =>
    rw [perform]
    rcases Int.lt_or_le (d.queue.size : Int) d.queue.capacity with hroom | hfull
    · rw [enqueue_of_lt hroom]
      exact headInRange_append _ _
    · rw [enqueue_of_ge hfull]
      exact h
  | dequeue =>
    rw [perform]
    cases hq : d.queue.toList with
    | nil =>
      rw [dequeue_of_nil hq]
      exact h
    | cons a rest =>
      rw [dequeue_of_cons hq]
      exact headInRange_drop _ _
  | next i =>
    rw [perform]
    obtain ⟨a, hnext⟩ | hnext := next_cases d i
    · rw [hnext]
      exact headInRange_drop _ _
    · rw [hnext]
      exact h
  | drain => exact headInRange_drop _ _
  | contains a =>
    rw [perform, seek]
    split <;> exact headInRange_drop _ _
  | peek | size | toList | isNonempty | display | capacity | setCapacity | newCursor => exact h

theorem headInRange_session {d : Shared} (h : d.queue.HeadInRange) (calls : List Call) :
    ∀ a ∈ d.session calls, a.2.queue.HeadInRange := by
  induction calls generalizing d with
  | nil => simp [session]
  | cons call calls ih =>
    rw [session, List.forall_mem_cons]
    exact ⟨headInRange_perform h call, ih (headInRange_perform h call)⟩

end Shared

end Queue

/-! ## 5. Sessions -/

namespace BoundedList

/-- Whatever is asked of a fresh stack or queue, in whatever order, each answers as its list with the capacity of
the moment does.  At any time an insertion fails if and only if there are as many items as the capacity allows or
more, a removal if and only if there is none, a look at the next item shows what a removal gives, and a failure
changes nothing.  If the capacity is not negative and nobody sets another one, the size stays within it.  In the
storage of a queue, whatever else is called, the head stands at an item unless nothing is stored. -/
theorem sessions_serve_list (capacity : Int) (requests : List Request) :
    ((Stack.ofCapacity capacity).askAll requests).map (fun a => (a.1, a.2.bounded)) =
        (session .lastIn ⟨capacity, []⟩ requests).map (fun a => (a.1.ofStack, a.2)) ∧
      ((Queue.Shared.ofQueue (.ofCapacity capacity)).askAll requests).map (fun a => (a.1, a.2.bounded)) =
        (session .firstIn ⟨capacity, []⟩ requests).map (fun a => (a.1.ofQueue, a.2)) ∧
      Serves .lastIn Stack.ask Answer.ofStack Stack.bounded ∧
      Serves .firstIn Queue.Shared.ask Answer.ofQueue Queue.Shared.bounded ∧
      (0 ≤ capacity → (∀ n, .setCapacity n ∉ requests) →
        (∀ a ∈ (Stack.ofCapacity capacity).askAll requests, (a.2.size : Int) ≤ capacity) ∧
        ∀ a ∈ (Queue.Shared.ofQueue (.ofCapacity capacity)).askAll requests, (a.2.queue.size : Int) ≤ capacity) ∧
      ∀ calls, ∀ a ∈ (Queue.Shared.ofQueue (.ofCapacity capacity)).session calls, a.2.queue.HeadInRange :=
  ⟨Stack.askAll_eq _ requests, Queue.Shared.askAll_eq _ requests, Stack.serves, Queue.Shared.serves,
    fun hcapacity hrequests => ⟨Stack.size_askAll_le hrequests hcapacity,
      Queue.Shared.size_askAll_le hrequests hcapacity⟩,
    Queue.Shared.headInRange_session (Queue.headInRange_ofCapacity capacity)⟩

/-- More items than there is room for come in, and more are taken than there are; in between one goes and another
one comes. -/
def crowd : List Request :=
  [.insert (.int 1), .insert (.int 2), .insert .null, .remove, .insert .null, .peek, .remove, .remove, .remove, .peek]

/-- The stack and the queue keep to their two places, and give the items in their own order. -/
theorem sessions_serve_list_crowd :
    (0 : Int) ≤ 2 ∧ (∀ n, .setCapacity n ∉ crowd) ∧
      (∀ a ∈ (Stack.ofCapacity 2).askAll crowd, (a.2.size : Int) ≤ 2) ∧
      (∀ a ∈ (Queue.Shared.ofQueue (.ofCapacity 2)).askAll crowd, (a.2.queue.size : Int) ≤ 2) ∧
      ((Stack.ofCapacity 2).askAll crowd).map Prod.fst =
        [.ok .nothing, .ok .nothing, .error (.full 2), .ok (.item (.int 2)), .ok .nothing, .ok (.item .null),
          .ok (.item .null), .ok (.item (.int 1)), .error .empty, .ok (.item .null)] ∧
      ((Queue.Shared.ofQueue (.ofCapacity 2)).askAll crowd).map Prod.fst =
        [.ok .nothing, .ok .nothing, .error (.queue (.full 2)), .ok (.item (.int 1)), .ok .nothing,
          .ok (.item (.int 2)), .ok (.item (.int 2)), .ok (.item .null), .error (.queue .empty),
          .ok (.item .null)] := by
  have hrequests : ∀ n, .setCapacity n ∉ crowd := by simp [crowd]
  obtain ⟨-, -, -, -, hsize, -⟩ := sessions_serve_list 2 crowd
  exact ⟨by decide, hrequests, (hsize (by decide) hrequests).1, (hsize (by decide) hrequests).2, rfl, rfl⟩

end BoundedList

end ReversePolish
