import Mathlib.Data.List.Induction
import ReversePolish.Converter.Run
import ReversePolish.Queue.Session

/-!
# Handout — every item leaves a shared queue once, in order

Whoever takes items from a queue takes them from its front: the queue itself, any of its cursors, a drain, or
a search.  So the items handed out, followed by those that still wait, are at any time the items at the start
followed by those put in since.  A cursor has ended if and only if it was once asked in vain.
-/

namespace ReversePolish

namespace Queue

variable {q : Queue Value} {item : Value}

/-! ## 1. Searching -/

/-- The items up to the first that is the same as `item`, and that one; all if there is none. -/
def upTo (item : Value) : List Value → List Value
  | [] => []
  | a :: rest => if item.same a then [a] else a :: upTo item rest

theorem upTo_of_same {passed : List Value} {found : Value} (rest : List Value)
    (hpassed : ∀ a ∈ passed, item.same a = false) (hfound : item.same found = true) :
    upTo item (passed ++ found :: rest) = passed ++ [found] := by
  induction passed with
  | nil => simp [upTo, hfound]
  | cons a passed ih =>
    rw [List.forall_mem_cons] at hpassed
    simp [upTo, hpassed.1, ih hpassed.2]

theorem upTo_of_forall {items : List Value} (h : ∀ a ∈ items, item.same a = false) : upTo item items = items := by
  induction items with
  | nil => rfl
  | cons a items ih =>
    rw [List.forall_mem_cons] at h
    simp [upTo, h.1, ih h.2]

theorem seek_of_same {passed rest : List Value} {found : Value} (hq : q.toList = passed ++ found :: rest)
    (hpassed : ∀ a ∈ passed, item.same a = false) (hfound : item.same found = true) :
    (q.seek item).1 = true ∧ (q.seek item).2.toList = rest := by
  have hpassed' : passed.findIdx? item.same = none := List.findIdx?_eq_none_iff.2 hpassed
  have hindex : q.toList.findIdx? item.same = some passed.length := by
    rw [hq, List.findIdx?_append, hpassed']
    simp [List.findIdx?_cons, hfound]
  rw [seek, hindex]
  refine ⟨rfl, ?_⟩
  rw [toList_drop, hq, List.drop_length_add_append]
  rfl

theorem seek_of_forall (h : ∀ a ∈ q.toList, item.same a = false) :
    (q.seek item).1 = false ∧ (q.seek item).2.toList = [] := by
  rw [seek, List.findIdx?_eq_none_iff.2 h]
  exact ⟨rfl, toList_drop_size q⟩

theorem capacity_seek (q : Queue Value) (item : Value) : (q.seek item).2.capacity = q.capacity := by
  rw [seek]
  split <;> exact capacity_drop _ _

/-- Either an item is the same as `item`, and there is a first such one, or none is. -/
theorem same_cases (item : Value) (items : List Value) :
    (∃ passed found rest, items = passed ++ found :: rest ∧ (∀ a ∈ passed, item.same a = false) ∧
        item.same found = true) ∨
      ∀ a ∈ items, item.same a = false := by
  cases hfind : items.find? item.same with
  | some found =>
    obtain ⟨hfound, passed, rest, hitems, hpassed⟩ := List.find?_eq_some_iff_append.1 hfind
    exact .inl ⟨passed, found, rest, hitems, fun a ha => by simpa using hpassed a ha, hfound⟩
  | none => exact .inr fun a ha => by simpa using List.find?_eq_none.1 hfind a ha

theorem upTo_append_seek (q : Queue Value) (item : Value) :
    upTo item q.toList ++ (q.seek item).2.toList = q.toList := by
  obtain ⟨passed, found, rest, hq, hpassed, hfound⟩ | hnone := same_cases item q.toList
  · rw [(seek_of_same hq hpassed hfound).2, hq, upTo_of_same rest hpassed hfound, List.append_assoc,
      List.singleton_append]
  · rw [(seek_of_forall hnone).2, upTo_of_forall hnone, List.append_nil]

def Call.makesCursor : Call → Bool
  | newCursor => true
  | _ => false

namespace Shared

variable {d : Shared} {i : Nat}

/-! ## 2. Items in and out -/

def carried : Except Failure Reply → List Value
  | .ok (.item a) => [a]
  | .ok (.items items) => items
  | _ => []

/-- The items that a call hands out.  A search answers only whether it found the item it looked for. -/
def handsOut (d : Shared) : Call → List Value
  | .dequeue => carried (d.perform .dequeue).1
  | .next cursor => carried (d.perform (.next cursor)).1
  | .drain => carried (d.perform .drain).1
  | .contains item => upTo item d.queue.toList
  | _ => []

def putsIn (d : Shared) : Call → List Value
  | .enqueue item =>
    match (d.perform (.enqueue item)).1 with
    | .ok _ => [item]
    | .error _ => []
  | _ => []

def after (d : Shared) (calls : List Call) : Shared := calls.foldl (fun d call => (d.perform call).2) d

def handedOut (d : Shared) : List Call → List Value
  | [] => []
  | call :: calls => d.handsOut call ++ (d.perform call).2.handedOut calls

def takenIn (d : Shared) : List Call → List Value
  | [] => []
  | call :: calls => d.putsIn call ++ (d.perform call).2.takenIn calls

theorem handsOut_append_perform (d : Shared) (call : Call) :
    d.handsOut call ++ (d.perform call).2.queue.toList = d.queue.toList ++ d.putsIn call := by
  cases call with
  | enqueue item =>
    simp only [handsOut, putsIn, perform]
    cases h : d.queue.enqueue item with
    | ok r => exact toList_enqueue h
    | error e => exact (List.append_nil _).symm
  | dequeue =>
    simp only [handsOut, putsIn, perform, List.append_nil]
    cases h : d.queue.dequeue with
    | ok r => exact (toList_dequeue h).symm
    | error e => rfl
  | next cursor =>
    simp only [handsOut, putsIn, perform, next, List.append_nil]
    split
    · cases h : d.queue.dequeue with
      | ok r => exact (toList_dequeue h).symm
      | error e => rfl
    · rfl
  | drain =>
    rw [perform, toList_drop_size, List.append_nil]
    exact (List.append_nil _).symm
  | contains item => exact (upTo_append_seek _ _).trans (List.append_nil _).symm
  | peek | size | toList | isNonempty | display | capacity | setCapacity | newCursor =>
    exact (List.append_nil _).symm

theorem handedOut_append_after (d : Shared) (calls : List Call) :
    d.handedOut calls ++ (d.after calls).queue.toList = d.queue.toList ++ d.takenIn calls := by
  induction calls generalizing d with
  | nil => simp [handedOut, takenIn, after]
  | cons call calls ih =>
    calc d.handedOut (call :: calls) ++ (d.after (call :: calls)).queue.toList
      _ = d.handsOut call ++ ((d.perform call).2.handedOut calls ++
            ((d.perform call).2.after calls).queue.toList) := List.append_assoc _ _ _
      _ = d.handsOut call ++ (d.perform call).2.queue.toList ++ (d.perform call).2.takenIn calls := by
            rw [ih, List.append_assoc]
      _ = d.queue.toList ++ d.takenIn (call :: calls) := by
            rw [handsOut_append_perform, takenIn, List.append_assoc]

-- The answers to further calls are those that the queue and the cursors `after` the first ones give.
theorem session_append (d : Shared) (calls more : List Call) :
    d.session (calls ++ more) = d.session calls ++ (d.after calls).session more := by
  induction calls generalizing d with
  | nil => rfl
  | cons call calls ih => exact congrArg (d.perform call :: ·) (ih _)

theorem after_append_singleton (d : Shared) (calls : List Call) (call : Call) :
    d.after (calls ++ [call]) = ((d.after calls).perform call).2 :=
  List.foldl_append

/-! ## 3. Cursors -/

theorem next_of_ended (h : d.ended[i]? = some true) : d.next i = (.error .cursorEnded, d) := by
  rw [next, h, if_neg (by decide)]

theorem next_of_nil (h : d.ended[i]? = some false) (hq : d.queue.toList = []) :
    d.next i = (.error .cursorEnded, { d with ended := d.ended.set i true }) := by
  rw [next, if_pos h, dequeue_of_nil hq]

theorem next_of_cons {a : Value} {rest : List Value} (h : d.ended[i]? = some false)
    (hq : d.queue.toList = a :: rest) : d.next i = (.ok (.item a), { d with queue := d.queue.drop 1 }) := by
  rw [next, if_pos h, dequeue_of_cons hq]

/-- A cursor hands out the front item, or nothing; then it has ended. -/
theorem next_cases (d : Shared) (i : Nat) :
    (∃ a, d.next i = (.ok (.item a), { d with queue := d.queue.drop 1 })) ∨
      d.next i = (.error .cursorEnded, { d with ended := d.ended.set i true }) := by
  match h : d.ended[i]?, hq : d.queue.toList with
  | some false, [] => exact .inr (next_of_nil h hq)
  | some false, a :: _ => exact .inl ⟨a, next_of_cons h hq⟩
  | some true, _ =>
    right
    obtain ⟨hi, hget⟩ := List.getElem?_eq_some_iff.1 h
    rw [next_of_ended h, ← hget, List.set_getElem_self]
  | none, _ =>
    right
    rw [next, h, if_neg (by decide), List.set_eq_of_length_le (List.getElem?_eq_none_iff.1 h)]

/-- A call makes a cursor, or ends the one that it asks in vain, or leaves the cursors as they are. -/
theorem cursors_cases (d : Shared) (call : Call) :
    (call.makesCursor = true ∧ (d.perform call).2.ended = d.ended ++ [false]) ∨
      (∃ i, call = .next i ∧ (d.perform call).1 = .error .cursorEnded ∧
        (d.perform call).2.ended = d.ended.set i true) ∨
      (call.makesCursor = false ∧ (∀ i, call = .next i → (d.perform call).1 ≠ .error .cursorEnded) ∧
        (d.perform call).2.ended = d.ended) := by
  cases call with
  | newCursor => exact .inl ⟨rfl, rfl⟩
  | next i =>
    right
    rw [perform]
    obtain ⟨a, h⟩ | h := next_cases d i
    · rw [h]
      exact .inr ⟨rfl, nofun, rfl⟩
    · rw [h]
      exact .inl ⟨i, rfl, rfl, rfl⟩
  | enqueue item =>
    refine .inr (.inr ⟨rfl, nofun, ?_⟩)
    simp only [perform]
    cases d.queue.enqueue item <;> rfl
  | dequeue =>
    refine .inr (.inr ⟨rfl, nofun, ?_⟩)
    simp only [perform]
    cases d.queue.dequeue <;> rfl
  | peek | size | toList | isNonempty | display | capacity | setCapacity | drain | contains =>
    exact .inr (.inr ⟨rfl, nofun, rfl⟩)

theorem length_ended_perform (d : Shared) (call : Call) :
    (d.perform call).2.ended.length = d.ended.length + (if call.makesCursor then 1 else 0) := by
  obtain ⟨hcall, hended⟩ | ⟨i, rfl, -, hended⟩ | ⟨hcall, -, hended⟩ := cursors_cases d call
  · simp [hended, hcall]
  · simp [hended, Call.makesCursor]
  · simp [hended, hcall]

-- A call ends at most the one cursor that it asks, and does so if and only if that cursor gives nothing.
theorem ended_perform (d : Shared) (call : Call) (i : Nat) :
    (d.perform call).2.ended[i]? = some true ↔ d.ended[i]? = some true ∨
      (call = .next i ∧ i < d.ended.length ∧ (d.perform call).1 = .error .cursorEnded) := by
  obtain ⟨hcall, hended⟩ | ⟨j, rfl, hreply, hended⟩ | ⟨-, hreply, hended⟩ := cursors_cases d call
  · have hask : call ≠ .next i := by
      rintro rfl
      contradiction
    have hfresh : [false][i - d.ended.length]? ≠ some true := fun h => by
      simpa using List.mem_of_getElem? h
    rw [hended, List.getElem?_append]
    split <;> simp_all
  · rw [hended, List.getElem?_set]
    by_cases hij : j = i
    · subst hij
      by_cases hj : j < d.ended.length <;> simp [hj, hreply]
    · simp [hij]
  · have hask : ¬ (call = .next i ∧ i < d.ended.length ∧ (d.perform call).1 = .error .cursorEnded) :=
      fun h => hreply i h.1 h.2.2
    rw [hended, or_iff_left hask]

theorem length_ended_after (d : Shared) (calls : List Call) :
    (d.after calls).ended.length = d.ended.length + calls.countP Call.makesCursor := by
  induction calls generalizing d with
  | nil => rfl
  | cons call calls ih =>
    calc (d.after (call :: calls)).ended.length
      _ = (d.perform call).2.ended.length + calls.countP Call.makesCursor := ih _
      _ = d.ended.length + (call :: calls).countP Call.makesCursor := by
            rw [length_ended_perform, List.countP_cons, Nat.add_assoc, Nat.add_comm (calls.countP _)]

/-- Cursor number `i` was made and then asked in vain during `calls`, made in turn on `q`. -/
def AskedInVain (q : Queue Value) (calls : List Call) (i : Nat) : Prop :=
  ∃ before, before ++ [.next i] <+: calls ∧ i < before.countP Call.makesCursor ∧
    (((ofQueue q).after before).perform (.next i)).1 = .error .cursorEnded

theorem askedInVain_append_singleton (q : Queue Value) (calls : List Call) (call : Call) (i : Nat) :
    AskedInVain q (calls ++ [call]) i ↔ AskedInVain q calls i ∨
      (call = .next i ∧ i < calls.countP Call.makesCursor ∧
        (((ofQueue q).after calls).perform call).1 = .error .cursorEnded) := by
  constructor
  · rintro ⟨before, hprefix, hi, hreply⟩
    rw [List.prefix_concat_iff] at hprefix
    obtain heq | hprefix := hprefix
    · obtain ⟨rfl, hcall⟩ := List.append_inj' heq rfl
      obtain rfl := List.singleton_inj.1 hcall
      exact .inr ⟨rfl, hi, hreply⟩
    · exact .inl ⟨before, hprefix, hi, hreply⟩
  · rintro (⟨before, hprefix, hi, hreply⟩ | ⟨rfl, hi, hreply⟩)
    · exact ⟨before, hprefix.trans (List.prefix_append _ _), hi, hreply⟩
    · exact ⟨calls, List.prefix_rfl, hi, hreply⟩

theorem ended_after_iff (q : Queue Value) (calls : List Call) (i : Nat) :
    ((ofQueue q).after calls).ended[i]? = some true ↔ AskedInVain q calls i := by
  induction calls using List.reverseRecOn with
  | nil =>
    constructor
    · intro h
      contradiction
    · rintro ⟨before, hprefix, -, -⟩
      simp at hprefix
  | append_singleton calls call ih =>
    rw [after_append_singleton, ended_perform, ih, askedInVain_append_singleton, length_ended_after, ofQueue,
      List.length_nil, Nat.zero_add]

theorem ended_after_eq_false {calls : List Call} (hi : i < calls.countP Call.makesCursor)
    (hvain : ¬ AskedInVain q calls i) : ((ofQueue q).after calls).ended[i]? = some false := by
  have hlength : i < ((ofQueue q).after calls).ended.length := by
    rw [length_ended_after]
    exact Nat.lt_of_lt_of_le hi (Nat.le_add_left _ _)
  rw [← ended_after_iff, List.getElem?_eq_getElem hlength] at hvain
  rw [List.getElem?_eq_getElem hlength]
  simpa using hvain

/-! ## 4. Sessions -/

/-- The call is answered with `reply`, and leaves the items `left`, the capacity and the cursors. -/
structure Answers (d : Shared) (call : Call) (reply : Reply) (left : List Value) : Prop where
  reply : (d.perform call).1 = .ok reply
  items : (d.perform call).2.queue.toList = left
  capacity : (d.perform call).2.queue.capacity = d.queue.capacity
  ended : (d.perform call).2.ended = d.ended

/-- A search for `item` takes the items up to the first that is the same, and that one; all if there is none. -/
def TakesUpTo (d : Shared) (item : Value) : Prop :=
  (∃ passed found rest, d.queue.toList = passed ++ found :: rest ∧ (∀ a ∈ passed, item.same a = false) ∧
      item.same found = true ∧ d.Answers (.contains item) (.truth true) rest) ∨
    ((∀ a ∈ d.queue.toList, item.same a = false) ∧ d.Answers (.contains item) (.truth false) [])

theorem takesUpTo (d : Shared) (item : Value) : d.TakesUpTo item := by
  have hanswers {b : Bool} {left : List Value}
      (h : (d.queue.seek item).1 = b ∧ (d.queue.seek item).2.toList = left) :
      d.Answers (.contains item) (.truth b) left := by
    refine ⟨?_, h.2, capacity_seek _ _, rfl⟩
    rw [perform, h.1]
  obtain ⟨passed, found, rest, hq, hpassed, hfound⟩ | hnone := same_cases item d.queue.toList
  · exact .inl ⟨passed, found, rest, hq, hpassed, hfound, hanswers (seek_of_same hq hpassed hfound)⟩
  · exact .inr ⟨hnone, hanswers (seek_of_forall hnone)⟩

theorem answers_next {a : Value} {rest : List Value} (h : d.ended[i]? = some false)
    (hq : d.queue.toList = a :: rest) : d.Answers (.next i) (.item a) rest := by
  have hperform : d.perform (.next i) = (.ok (.item a), { d with queue := d.queue.drop 1 }) :=
    next_of_cons h hq
  constructor
  · rw [hperform]
  · rw [hperform, toList_drop, hq, List.drop_one, List.tail_cons]
  · rw [hperform, capacity_drop]
  · rw [hperform]

/-- Whatever calls are made in turn on a queue and on its cursors, the items handed out and those that wait then
are the items at the start and those put in since, in this order.  A further call finds the queue and the cursors so.
A search takes the items up to the first that is the same, or all of them.  Cursors are numbered as they are made.
One that was once asked in vain refuses every further request and changes nothing; any other one hands out the front
item while there is one. -/
theorem session_hands_out (q : Queue Value) (calls : List Call) :
    (ofQueue q).handedOut calls ++ ((ofQueue q).after calls).queue.toList =
        q.toList ++ (ofQueue q).takenIn calls ∧
      (∀ call, (ofQueue q).session (calls ++ [call]) =
          (ofQueue q).session calls ++ [((ofQueue q).after calls).perform call] ∧
        (ofQueue q).after (calls ++ [call]) = (((ofQueue q).after calls).perform call).2) ∧
      (∀ item, ((ofQueue q).after calls).TakesUpTo item) ∧
      (((ofQueue q).after calls).perform .newCursor).1 = .ok (.number (calls.countP Call.makesCursor)) ∧
      ∀ i < calls.countP Call.makesCursor,
        (AskedInVain q calls i →
          ((ofQueue q).after calls).perform (.next i) = (.error .cursorEnded, (ofQueue q).after calls)) ∧
        (¬ AskedInVain q calls i →
          (((ofQueue q).after calls).queue.toList = [] →
            (((ofQueue q).after calls).perform (.next i)).1 = .error .cursorEnded) ∧
          ∀ a rest, ((ofQueue q).after calls).queue.toList = a :: rest →
            ((ofQueue q).after calls).Answers (.next i) (.item a) rest) := by
  refine ⟨handedOut_append_after _ _, fun call => ⟨session_append _ _ _, after_append_singleton _ _ _⟩, takesUpTo _,
    ?_, fun i hi => ⟨fun hvain => ?_, fun hvain => ?_⟩⟩
  · have hlength := length_ended_after (ofQueue q) calls
    rw [ofQueue, List.length_nil, Nat.zero_add] at hlength
    rw [perform, ofQueue, hlength]
  · exact next_of_ended ((ended_after_iff q calls i).2 hvain)
  · have hended := ended_after_eq_false hi hvain
    refine ⟨fun hq => ?_, fun a rest => answers_next hended⟩
    rw [perform, next_of_nil hended hq]

def difference : Queue Value := ⟨5, #[.str "3", .str "4", .str "-"], 0, Nat.zero_le _⟩

/-- Of two cursors the first takes an item and comes back after a search and a drain; then an item comes in. -/
def lateItem : List Call :=
  [.newCursor, .newCursor, .next 0, .contains (.str "4"), .drain, .next 0, .enqueue (.int 5)]

/-- The queue that a text was converted to, emptied and filled again: the cursor that came back in vain stays
ended, the one that was not asked yet hands out the new item. -/
theorem session_hands_out_late :
    (queueOf "3 - 4").map (Queue.map .str) = .ok difference ∧
      (ofQueue difference).handedOut lateItem = [.str "3", .str "4", .str "-"] ∧
      ((ofQueue difference).after lateItem).queue.toList = [.int 5] ∧
      0 < lateItem.countP Call.makesCursor ∧ AskedInVain difference lateItem 0 ∧
      ((ofQueue difference).after lateItem).perform (.next 0) =
        (.error .cursorEnded, (ofQueue difference).after lateItem) ∧
      1 < lateItem.countP Call.makesCursor ∧ ¬ AskedInVain difference lateItem 1 ∧
      ((ofQueue difference).after lateItem).Answers (.next 1) (.item (.int 5)) [] := by
  have hqueue : queueOf "3 - 4" = .ok ⟨5, #["3", "4", "-"], 0, Nat.zero_le _⟩ := by decide +kernel
  have hdifference : (queueOf "3 - 4").map (Queue.map .str) = .ok difference := by
    rw [hqueue]
    simp [Except.map, Queue.map, difference]
  have hvain : AskedInVain difference lateItem 0 :=
    ⟨[.newCursor, .newCursor, .next 0, .contains (.str "4"), .drain], ⟨[.enqueue (.int 5)], rfl⟩, by decide, rfl⟩
  have hunasked : ¬ AskedInVain difference lateItem 1 := by
    rw [← ended_after_iff]
    decide
  have hitems : ((ofQueue difference).after lateItem).queue.toList = [.int 5] := rfl
  obtain ⟨-, -, -, -, hcursors⟩ := session_hands_out difference lateItem
  exact ⟨hdifference, rfl, hitems, by decide, hvain, (hcursors 0 (by decide)).1 hvain, by decide, hunasked,
    ((hcursors 1 (by decide)).2 hunasked).2 _ _ hitems⟩

end Shared

end Queue

end ReversePolish
