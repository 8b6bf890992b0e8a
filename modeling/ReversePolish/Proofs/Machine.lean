import ReversePolish.Proofs.Events
import ReversePolish.Proofs.Outcome
import Mathlib.Data.List.Chain

/-!
# Machine — the events of a conversion are the run of an abstract machine

The machine has an output and a stack of strings, without positions, counts or capacities.  Each event of a
conversion is one step of it, from what the event before shows to what the event itself shows, so nothing
happens between two events.  The steps of the drain come last.
-/

namespace ReversePolish

/-! ## 1. Steps and runs -/

/-- An output, front first, and a stack of entries, top first. -/
structure Machine where
  output : List String
  stack : List String
  deriving Repr, DecidableEq

def Event.machine (e : Event) : Machine := ⟨e.output, e.stack⟩

namespace Machine

def empty : Machine := ⟨[], []⟩

/-- The stack entry is an operator that binds tighter than `op`, or as tightly while `op` groups to the
left. -/
def Yields (op : Operator) (entry : String) : Prop :=
  ∃ waiting : Operator, entry = waiting.symbol ∧
    (op.fixity.precedence < waiting.fixity.precedence ∨
      (op.fixity.precedence = waiting.fixity.precedence ∧ op.fixity.associativity = .left))

/-- `Step m e`: the event `e` is a step of the machine `m`, and shows what it leads to. -/
inductive Step : Machine → Event → Prop where
  | number {output stack : List String} {position : Int} {token : String} :
      Step ⟨output, stack⟩ ⟨position, token, .number, output ++ [token], stack⟩
  | opening {output stack : List String} {position : Int} :
      Step ⟨output, stack⟩ ⟨position, "(", .opening, output, "(" :: stack⟩
  | operator {output moved kept : List String} {position : Int} (op : Operator) :
      (∀ entry ∈ moved, Yields op entry) → (∀ entry ∈ kept.head?, ¬ Yields op entry) →
      Step ⟨output, moved ++ kept⟩ ⟨position, op.symbol, .operator, output ++ moved, op.symbol :: kept⟩
  | closing {output moved kept : List String} {position : Int} :
      "(" ∉ moved → Step ⟨output, moved ++ "(" :: kept⟩ ⟨position, ")", .closing, output ++ moved, kept⟩
  | drain {output stack : List String} {position : Int} (op : Operator) :
      Step ⟨output, op.symbol :: stack⟩ ⟨position, op.symbol, .drain, output ++ [op.symbol], stack⟩

/-- `Run m es n`: the events `es` are steps one after the other that lead from `m` to `n`. -/
inductive Run : Machine → List Event → Machine → Prop where
  | nil {m : Machine} : Run m [] m
  | cons {m n : Machine} {e : Event} {es : List Event} :
      Step m e → Run e.machine es n → Run m (e :: es) n

theorem Run.append {l m n : Machine} {es fs : List Event} (h : Run l es m) (h' : Run m fs n) :
    Run l (es ++ fs) n := by
  induction h with
  | nil => exact h'
  | cons hstep _ ih => exact .cons hstep (ih h')

theorem Run.exists_take {m n : Machine} {es : List Event} (h : Run m es n) (k : Nat) :
    ∃ l, Run m (es.take k) l := by
  induction h generalizing k with
  | nil => exact ⟨_, by rw [List.take_nil]; exact .nil⟩
  | cons hstep _ ih =>
    cases k with
    | zero => exact ⟨_, .nil⟩
    | succ k =>
      obtain ⟨l, hl⟩ := ih k
      exact ⟨l, .cons hstep hl⟩

-- A run ends with what its last event shows.
theorem Run.eq_last {m n : Machine} {es : List Event} (h : Run m es n) :
    n = (es.getLast?.map Event.machine).getD m := by
  induction h with
  | nil => rfl
  | @cons m n e es _ _ ih =>
    rw [List.getLast?_cons, Option.map_some, Option.getD_some, ih]
    cases es.getLast? <;> rfl

-- No step takes anything out of the output.
theorem Step.output_prefix {m : Machine} {e : Event} (h : Step m e) : m.output <+: e.output := by
  cases h with
  | opening => exact List.prefix_refl _
  | number | operator | closing | drain => exact List.prefix_append _ _

theorem Run.isChain_output {m n : Machine} {es : List Event} (h : Run m es n) :
    (es.map Event.output).IsChain (· <+: ·) := by
  induction h with
  | nil => exact .nil
  | cons _ hrun ih =>
    refine ih.cons ?_
    intro output houtput
    cases hrun with
    | nil => contradiction
    | cons hnext _ =>
      cases houtput
      exact hnext.output_prefix

end Machine

/-! ## 2. The moves of a yard -/

def Yard.machine (y : Yard) : Machine := ⟨y.output.map Token.text, y.waiting.map Token.text⟩

theorem Converter.settles_iff_yields {op : Operator} {entry : String} :
    settles op entry = true ↔ Machine.Yields op entry := by
  unfold settles Machine.Yields
  constructor
  · intro h
    cases hentry : Operator.ofSymbol? entry with
    | none => simp [hentry] at h
    | some waiting =>
      rw [hentry] at h
      exact ⟨waiting, (Operator.ofSymbol?_eq_some_iff.1 hentry).symm, Operator.appliesBefore_iff.1 h⟩
  · rintro ⟨waiting, rfl, h⟩
    rw [Operator.ofSymbol?_symbol]
    exact Operator.appliesBefore_iff.2 h

namespace Yard

variable {y : Yard} {t : Token}

theorem map_text_dropWhile_of_opens {ts : List Token} (h : ts.any Token.opens = true) :
    (ts.dropWhile (!·.opens)).map Token.text = "(" :: (ts.dropWhile (!·.opens)).tail.map Token.text := by
  obtain ⟨o, rest, hdrop, ho⟩ := Token.exists_dropWhile_opens h
  have hotext : o.text = "(" := by rw [Token.text, Token.opens_iff.1 ho]; rfl
  rw [hdrop, List.map_cons, hotext, List.tail_cons]

-- What waits above the innermost opening, the opening, and what waits below it.
theorem map_text_of_opens {ts : List Token} (h : ts.any Token.opens = true) :
    ts.map Token.text = (ts.takeWhile (!·.opens)).map Token.text ++
      "(" :: (ts.dropWhile (!·.opens)).tail.map Token.text := by
  rw [← map_text_dropWhile_of_opens h, ← List.map_append, List.takeWhile_append_dropWhile]

section

variable (waits : ∀ w ∈ y.waiting, w.waits = true)

include waits

theorem opening_notMem_takeWhile : "(" ∉ (y.waiting.takeWhile (!·.opens)).map Token.text := by
  intro hmem
  have hmoved := Converter.forall_mem_map_takeWhile (p := (· != opening)) (q := (!·.opens)) waits
    (fun w hw => Token.text_bne_opening hw) _ hmem
  contradiction

theorem step_operator {op : Operator} (ht : t.lexeme = .operator op) :
    Machine.Step y.machine (Move.event [] ⟨t.start, t, .operator, y.absorb t⟩) := by
  have htext : t.text = op.symbol := by rw [Token.text, ht]; rfl
  have hsettles : ∀ w : Token, w.waits = true → Converter.settles op w.text = w.settles op :=
    fun w hw => Token.settles_text hw op
  have hsplit : y.waiting.map Token.text = (y.waiting.takeWhile (Token.settles op)).map Token.text ++
      (y.waiting.dropWhile (Token.settles op)).map Token.text := by
    rw [← List.map_append, List.takeWhile_append_dropWhile]
  rw [machine, hsplit, absorb_of_operator ht, Move.event, List.nil_append, List.map_append, List.map_cons,
    htext]
  refine .operator op ?_ ?_
  · intro entry hentry
    exact Converter.settles_iff_yields.1 (Converter.forall_mem_map_takeWhile waits hsettles entry hentry)
  · intro entry hentry
    have hnot := (Converter.forall_head?_map_dropWhile waits hsettles entry hentry).1
    rw [← Converter.settles_iff_yields, hnot]
    simp

theorem step_closing (ht : t.lexeme = .closing) (h : y.waiting.any Token.opens = true) :
    Machine.Step y.machine (Move.event [] ⟨t.start, t, .closing, y.absorb t⟩) := by
  have htext : t.text = ")" := by rw [Token.text, ht]; rfl
  rw [machine, map_text_of_opens h, absorb_of_closing ht, Move.event, List.nil_append, List.map_append, htext]
  exact .closing (opening_notMem_takeWhile waits)

-- A token that does not end the conversion is one step of the machine.
theorem step_absorb (h : y.complaint? t = none) :
    Machine.Step y.machine (Move.event [] ⟨t.start, t, t.lexeme.action, y.absorb t⟩) := by
  rw [complaint?] at h
  cases ht : t.lexeme with
  | number literal =>
    rw [machine, absorb_of_number ht, Move.event, List.nil_append, List.map_append]
    exact .number
  | operator op => exact step_operator waits ht
  | opening =>
    have htext : t.text = "(" := by rw [Token.text, ht]; rfl
    rw [machine, absorb_of_opening ht, Move.event, List.nil_append, List.map_cons, htext]
    exact .opening
  | closing => exact step_closing waits ht (by simpa [ht] using h)
  | invalid c => simp [ht] at h

theorem run_absorbAll {ts : List Token} (h : (y.absorbAll ts).fault = none) :
    Machine.Run y.machine ((y.absorbAll ts).moves.map (Move.event [])) (y.absorbAll ts).last.machine := by
  induction ts generalizing y with
  | nil => exact .nil
  | cons t ts ih =>
    obtain ⟨hcomplaint, hrest, hcons⟩ := absorbAll_cons h
    rw [hcons]
    exact .cons (step_absorb waits hcomplaint) (ih (waits_absorb t waits) hrest)

end

-- The drain moves the operators above the innermost group that is open, or all of them.
theorem run_drain {stop : Nat} {ts : List Token} (hwaiting : y.waiting = ts)
    (waits : ∀ w ∈ ts, w.waits = true) :
    Machine.Run y.machine ((y.drain stop ts).moves.map (Move.event []))
      ⟨(y.output ++ ts.takeWhile (!·.opens)).map Token.text, (ts.dropWhile (!·.opens)).map Token.text⟩ := by
  induction ts generalizing y with
  | nil =>
    rw [machine, hwaiting, List.takeWhile_nil, List.append_nil]
    exact .nil
  | cons t ts ih =>
    rw [drain]
    cases hopens : t.opens with
    | true =>
      rw [machine, hwaiting, List.takeWhile_cons_of_neg (by simp [hopens]),
        List.dropWhile_cons_of_neg (by simp [hopens]), List.append_nil]
      exact .nil
    | false =>
      obtain ⟨op, hop⟩ := Token.isOperator_iff.1 (Token.isOperator_of_waits (waits t (by simp)) hopens)
      have htext : t.text = op.symbol := by rw [Token.text, hop]; rfl
      have hrest := ih (y := { y with output := y.output ++ [t], waiting := ts }) rfl
        fun w hw => waits w (by simp [hw])
      rw [List.takeWhile_cons_of_pos (by simp [hopens]), List.dropWhile_cons_of_pos (by simp [hopens]),
        List.append_cons y.output t (ts.takeWhile (!·.opens))]
      refine .cons ?_ hrest
      rw [machine, hwaiting, List.map_cons, Move.event, List.nil_append, List.map_append, List.map_singleton,
        htext]
      exact .drain op

theorem exists_run_conclude (stop : Nat) (waits : ∀ w ∈ y.waiting, w.waits = true) :
    ∃ m, Machine.Run y.machine ((y.conclude stop).moves.map (Move.event [])) m ∧
      ((y.conclude stop).fault = none → m = ⟨(y.conclude stop).last.output.map Token.text, []⟩) := by
  rw [conclude]
  split
  · exact ⟨_, .nil, by simp⟩
  · refine ⟨_, run_drain rfl waits, ?_⟩
    intro h
    have hopens : y.waiting.any Token.opens = false := by simpa [drain_fault] using h
    obtain ⟨htake, hdrop⟩ := Token.takeWhile_of_not_opens hopens
    rw [last_drain hopens, htake, hdrop, List.map_nil]

-- The whole course is a run, and one without a fault empties the stack.
theorem exists_run_convert (ts : List Token) (stop : Nat) (waits : ∀ w ∈ y.waiting, w.waits = true) :
    ∃ m, Machine.Run y.machine ((y.convert ts stop).moves.map (Move.event [])) m ∧
      ((y.convert ts stop).fault = none → m = ⟨(y.convert ts stop).last.output.map Token.text, []⟩) := by
  unfold convert
  cases hfault : (y.absorbAll ts).fault with
  | some d =>
    obtain ⟨before, t, after, -, hbefore, -, hcourse⟩ := exists_stop_of_fault hfault
    rw [Course.andThen_of_fault hfault, hfault, hcourse]
    exact ⟨_, run_absorbAll waits hbefore, by simp⟩
  | none =>
    obtain ⟨m, hrun, hm⟩ := exists_run_conclude (y := (y.absorbAll ts).last.pass stop) stop
      (waits_absorbAll ts waits)
    rw [Course.andThen_of_no_fault hfault, List.map_append]
    exact ⟨m, (run_absorbAll waits hfault).append hrun, hm⟩

-- An accepted text has a number, and with it a move.
theorem moves_convert_ne_nil {ts : List Token} {stop : Nat} (h : (empty.convert ts stop).fault = none) :
    (empty.convert ts stop).moves ≠ [] := by
  obtain ⟨drained, hmoves, -⟩ := moves_convert (y := empty) ts stop
  obtain ⟨htokens, -⟩ := moves_absorbAll (output_convert h).1
  obtain ⟨-, hcounts, -⟩ := (convert_fault_eq_none_iff _).1 h
  intro hnil
  rw [hmoves, List.append_eq_nil_iff] at hnil
  rw [hnil.1, List.map_nil] at htokens
  simp [← htokens] at hcounts

end Yard

/-! ## 3. Texts -/

theorem exists_last_event {s : String} {output : List String} {watch : Option Observer}
    (silent : Converter.Silent watch) (h : toReversePolish s = .ok output) :
    ∃ e, (events s watch).getLast? = some e ∧ e.machine = ⟨output, []⟩ := by
  obtain ⟨ts, reading⟩ : ∃ ts, Reading 0 s.toList ts := ⟨_, reading_scan _ _⟩
  obtain ⟨m, hrun, hm⟩ := Yard.exists_run_convert (y := Yard.empty) ts s.toList.length (by simp [Yard.empty])
  have hresult := toReversePolish_eq reading
  rw [h] at hresult
  rw [← events_of_silent reading silent] at hrun
  cases hfault : (Yard.empty.convert ts s.toList.length).fault with
  | some d => simp [hfault] at hresult
  | none =>
    rw [hfault] at hresult
    have hne : events s watch ≠ [] := by
      rw [events_of_silent reading silent]
      simpa using Yard.moves_convert_ne_nil hfault
    have hlast := hrun.eq_last
    rw [hm hfault, ← Except.ok.inj hresult, List.getLast?_eq_some_getLast hne] at hlast
    exact ⟨_, List.getLast?_eq_some_getLast hne, hlast.symm⟩

-- Texts whose events show the same outputs have the same reverse Polish form, if both are accepted.
theorem output_eq_of_events {s s' : String} {output output' : List String}
    (hevents : (events s').map Event.output = (events s).map Event.output)
    (h : toReversePolish s = .ok output) (h' : toReversePolish s' = .ok output') : output' = output := by
  obtain ⟨e, he, hmachine⟩ := exists_last_event Converter.silent_none h
  obtain ⟨e', he', hmachine'⟩ := exists_last_event Converter.silent_none h'
  have hlast := congrArg List.getLast? hevents
  rw [List.getLast?_map, List.getLast?_map, he, he'] at hlast
  calc output' = e'.output := (congrArg Machine.output hmachine').symm
    _ = e.output := Option.some.inj hlast
    _ = output := congrArg Machine.output hmachine

/-- The events of a text, accepted or not, are a run of the machine from its beginning, in which the steps of
the drain follow all others and each output goes on from the one before.  If the text is accepted, the last
event shows its reverse Polish form and an empty stack. -/
theorem events_machine (s : String) (watch : Option Observer) :
    (∃ m, Machine.Run .empty (events s watch) m) ∧
    (∃ scanned drained, events s watch = scanned ++ drained ∧
      (∀ e ∈ scanned, e.action ≠ .drain) ∧ ∀ e ∈ drained, e.action = .drain) ∧
    ((events s watch).map Event.output).IsChain (· <+: ·) ∧
    ∀ output, Converter.Silent watch → toReversePolish s = .ok output →
      ∃ e, (events s watch).getLast? = some e ∧ e.output = output ∧ e.stack = [] := by
  obtain ⟨ts, reading⟩ : ∃ ts, Reading 0 s.toList ts := ⟨_, reading_scan _ _⟩
  obtain ⟨m, hrun, -⟩ := Yard.exists_run_convert (y := Yard.empty) ts s.toList.length (by simp [Yard.empty])
  -- an observer only cuts the run short
  obtain ⟨k, hk⟩ := exists_take_events reading watch
  obtain ⟨l, hl⟩ := hrun.exists_take k
  rw [events_eq reading] at hk
  rw [← hk] at hl
  refine ⟨⟨l, hl⟩, ?_, hl.isChain_output, ?_⟩
  · obtain ⟨drained, hmoves, hdrained⟩ := Yard.moves_convert (y := Yard.empty) ts s.toList.length
    rw [hk, hmoves, List.map_append, List.take_append]
    refine ⟨_, _, rfl, ?_, ?_⟩
    · intro e he
      obtain ⟨m, hm, rfl⟩ := List.mem_map.1 (List.mem_of_mem_take he)
      exact Yard.action_of_mem_absorbAll m hm
    · intro e he
      obtain ⟨m, hm, rfl⟩ := List.mem_map.1 (List.mem_of_mem_take he)
      exact (hdrained m hm).1
  · intro output silent h
    obtain ⟨e, he, hmachine⟩ := exists_last_event silent h
    exact ⟨e, he, congrArg Machine.output hmachine, congrArg Machine.stack hmachine⟩

/-- A text with a group, with operators that group to the right and with three of them left to drain. -/
theorem events_machine_power :
    toReversePolish "1 - (2 * 3 - 4) ^ 5 ^ 6" = .ok ["1", "2", "3", "*", "4", "-", "5", "6", "^", "^", "-"] ∧
      (∃ m, Machine.Run .empty (events "1 - (2 * 3 - 4) ^ 5 ^ 6") m) ∧
      ∃ e, (events "1 - (2 * 3 - 4) ^ 5 ^ 6").getLast? = some e ∧
        e.output = ["1", "2", "3", "*", "4", "-", "5", "6", "^", "^", "-"] ∧ e.stack = [] := by
  have h : toReversePolish "1 - (2 * 3 - 4) ^ 5 ^ 6" =
      .ok ["1", "2", "3", "*", "4", "-", "5", "6", "^", "^", "-"] := by
    decide +kernel
  obtain ⟨hrun, -, -, hlast⟩ := events_machine "1 - (2 * 3 - 4) ^ 5 ^ 6" none
  exact ⟨h, hrun, hlast _ Converter.silent_none h⟩

end ReversePolish
