import ReversePolish.Proofs.Machine
import ReversePolish.Proofs.Unwinding

/-!
# Single moves — an operator or a closing parenthesis, read by hand in any state

Whatever is on the stack and however full the containers are, each of the two moves ends in one of a few ways.
For each of them it is told what the move has changed: most of all, entries may have gone to the output before
the move fails, and the one that finds no room there is lost.
-/

namespace ReversePolish

namespace Converter

variable {c : Converter} {watch : Option Observer}

/-! ## 1. What a move finds -/

def free (c : Converter) : Nat := (c.output.capacity - c.output.size).toNat

/-- `c.Meets ch moves run rest`: the character `ch` stands at the position, and the stack is `run` and below it
`rest`, where `run` is the longest run of entries from the top on of which `moves` holds. -/
structure Meets (c : Converter) (ch : Char) (moves : String → Prop) (run rest : List String) : Prop where
  char : c.text[c.pos]? = some ch
  entries : c.stack.entries = run ++ rest
  run_moves : ∀ entry ∈ run, moves entry
  rest_stays : ∀ entry ∈ rest.head?, ¬ moves entry

/-- The converter behind the character at its position, with `items` put at the end of the output and with
`entries` on the stack. -/
def behind (c : Converter) (items entries : List String) : Converter :=
  { c with pos := c.pos + 1, output := c.output.extend items, stack := { c.stack with entries } }

theorem exists_meets {ch : Char} {p : String → Bool} {moves : String → Prop} (h : c.text[c.pos]? = some ch)
    (hp : ∀ entry, p entry = true ↔ moves entry) : ∃ run rest, c.Meets ch moves run rest := by
  refine ⟨c.stack.entries.takeWhile p, c.stack.entries.dropWhile p, h,
    List.takeWhile_append_dropWhile.symm, ?_, ?_⟩
  · intro entry hentry
    exact (hp entry).1 (List.mem_takeWhile_imp hentry)
  · intro entry hentry
    have hnot := List.head?_dropWhile_not p c.stack.entries
    rw [Option.mem_def.1 hentry] at hnot
    rw [← hp]
    simpa using hnot

namespace Meets

variable {ch : Char} {moves : String → Prop} {run rest : List String} (h : c.Meets ch moves run rest)
  (hout : (c.output.size : Int) ≤ c.output.capacity)

include h

theorem length_add_length : run.length + rest.length = c.stack.size := by
  rw [Stack.size, h.entries, List.length_append]

include hout

-- All of the run finds room.
theorem times_shift (hroom : run.length ≤ c.free) :
    times run.length shift { c with pos := c.pos + 1 } = .ok () (c.behind run rest) := by
  have room : (c.output.size + run.length : Int) ≤ c.output.capacity := by
    unfold free at hroom
    omega
  rw [times_shift_of_room (c := { c with pos := c.pos + 1 }) h.entries room]
  rfl

-- The run is longer than the free places are many.
theorem times_shift_lost (hfull : c.free < run.length) :
    times run.length shift { c with pos := c.pos + 1 } =
      .error (.queue (.full c.output.capacity))
        (c.behind (run.take c.free) (run.drop (c.free + 1) ++ rest)) := by
  have hlength : (run.take c.free).length = c.free := List.length_take_of_le hfull.le
  have hsplit : c.stack.entries = run.take c.free ++ run[c.free] :: (run.drop (c.free + 1) ++ rest) := by
    rw [h.entries, ← List.cons_append, List.getElem_cons_drop, ← List.append_assoc, List.take_append_drop]
  have full : (c.output.size + (run.take c.free).length : Int) = c.output.capacity := by
    rw [hlength, free]
    omega
  obtain ⟨n, hn⟩ : ∃ n, run.length = (run.take c.free).length + (n + 1) :=
    ⟨run.length - c.free - 1, by omega⟩
  rw [hn, times_shift_of_full (c := { c with pos := c.pos + 1 }) hsplit full]
  rfl

end Meets

theorem current_of_some {ch : Char} (h : c.text[c.pos]? = some ch) : current c = .ok ch c := by
  rw [current, h]

theorem current_of_le (h : c.text.length ≤ c.pos) : current c = .error (.pastEnd c.pos) c := by
  rw [current, List.getElem?_eq_none h]

theorem advance_none : advance none c = .ok () { c with pos := c.pos + 1 } := rfl

-- Either the position is behind the text, or a character stands there.
theorem pos_cases (c : Converter) : c.text.length ≤ c.pos ∨ ∃ ch, c.text[c.pos]? = some ch := by
  rcases Nat.lt_or_ge c.pos c.text.length with hlt | hle
  · exact .inr ⟨_, List.getElem?_eq_getElem hlt⟩
  · exact .inl hle

/-! ## 2. Placing an operator -/

/-- `c.Placed r`: an operator is to be read at the position of `c`, and the move ends as `r` tells, with its
result and the converter after it.  The run of entries that apply before the operator goes to the output as
far as there are free places.  Only an empty run leaves a full stack full. -/
inductive Placed (c : Converter) : EStateM.Result Fault Converter Unit → Prop where
  | pastEnd : c.text.length ≤ c.pos → Placed c (.error (.pastEnd c.pos) c)
  | noOperator {ch : Char} : c.text[c.pos]? = some ch → (∀ op : Operator, op.char ≠ ch) →
      Placed c (.error (.unknownOperator (String.singleton ch)) { c with pos := c.pos + 1 })
  | outputFull {op : Operator} {run rest : List String} :
      c.Meets op.char (Machine.Yields op) run rest → c.free < run.length →
      Placed c (.error (.queue (.full c.output.capacity))
        (c.behind (run.take c.free) (run.drop (c.free + 1) ++ rest)))
  | unknownEntry {op : Operator} {run rest : List String} {entry : String} :
      c.Meets op.char (Machine.Yields op) run (entry :: rest) → run.length ≤ c.free →
      entry ≠ "(" → (∀ waiting : Operator, entry ≠ waiting.symbol) →
      Placed c (.error (.unknownOperator entry) (c.behind run (entry :: rest)))
  | stackFull {op : Operator} {rest : List String} :
      c.Meets op.char (Machine.Yields op) [] rest →
      (∀ entry ∈ rest.head?, entry = "(" ∨ ∃ waiting : Operator, entry = waiting.symbol) →
      (c.stack.size : Int) = c.stack.capacity →
      Placed c (.error (.stack (.full c.stack.capacity)) (c.behind [] rest))
  | placed {op : Operator} {run rest : List String} :
      c.Meets op.char (Machine.Yields op) run rest → run.length ≤ c.free →
      (∀ entry ∈ rest.head?, entry = "(" ∨ ∃ waiting : Operator, entry = waiting.symbol) →
      (rest.length : Int) < c.stack.capacity →
      Placed c (.ok () ((c.behind run (op.symbol :: rest)).recorded c.pos op.symbol .operator))

/-- An operator is read, and settles with the stack entry by entry. -/
def placeOperatorByEntry (watch : Option Observer) : Conversion Unit := do
  let start := (← get).pos
  let ch ← current
  advance none
  match Operator.ofChar? ch with
  | some op => settleByEntry watch op start
  | none => throw (.unknownOperator (String.singleton ch))

theorem isKnown_iff {entry : String} :
    isKnown entry = true ↔ entry = "(" ∨ ∃ waiting : Operator, entry = waiting.symbol := by
  rw [isKnown, Bool.or_eq_true, beq_iff_eq, Option.isSome_iff_exists]
  simp only [Operator.ofSymbol?_eq_some_iff, eq_comm (a := entry)]
  rfl

theorem placeOperator_of_operator {op : Operator} (h : c.text[c.pos]? = some op.char) :
    placeOperator watch c = settle watch op c.pos { c with pos := c.pos + 1 } := by
  rw [placeOperator, bind_get, bind_of_ok (current_of_some h), bind_of_ok advance_none,
    Operator.ofChar?_char]

theorem Meets.settle_eq {op : Operator} {run rest : List String}
    (h : c.Meets op.char (Machine.Yields op) run rest) :
    placeOperator watch c =
      (times run.length shift >>= fun _ => wait watch op c.pos) { c with pos := c.pos + 1 } := by
  rw [placeOperator_of_operator h.char]
  refine Converter.settle_eq h.entries ?_ ?_
  · intro entry hentry
    exact settles_iff_yields.2 (h.run_moves entry hentry)
  · intro entry hentry
    rw [← Bool.not_eq_true, settles_iff_yields]
    exact h.rest_stays entry hentry

section

variable (silent : Silent watch) (hout : (c.output.size : Int) ≤ c.output.capacity)

include silent hout

theorem placeOperator_of_placed {r : EStateM.Result Fault Converter Unit} (h : c.Placed r) :
    placeOperator watch c = r := by
  cases h with
  | pastEnd hpos => rw [placeOperator, bind_get, bind_of_error (current_of_le hpos)]
  | @noOperator ch hchar hop =>
    have hnone : Operator.ofChar? ch = none := by
      rw [Option.eq_none_iff_forall_ne_some]
      intro op hsome
      exact hop op (Operator.ofChar?_eq_some_iff.1 hsome)
    rw [placeOperator, bind_get, bind_of_ok (current_of_some hchar), bind_of_ok advance_none, hnone]
    rfl
  | outputFull hmeets hfull => rw [hmeets.settle_eq, bind_of_error (hmeets.times_shift_lost hout hfull)]
  | @unknownEntry op run rest entry hmeets hroom hopening hsymbol =>
    have hunknown : isKnown entry = false := by
      rw [← Bool.not_eq_true, isKnown_iff]
      simp [hopening, hsymbol]
    rw [hmeets.settle_eq, bind_of_ok (hmeets.times_shift hout hroom), wait_of_unknown rfl hunknown]
  | @stackFull op rest hmeets hknown hfull =>
    have hempty : (c.behind [] rest).stack.size = c.stack.size :=
      hmeets.length_add_length ▸ (Nat.zero_add _).symm
    have hfull' : ((c.behind [] rest).stack.size : Int) = (c.behind [] rest).stack.capacity := by
      rw [hempty]
      exact hfull
    rw [hmeets.settle_eq, bind_of_ok (hmeets.times_shift hout (Nat.zero_le _)),
      wait_of_known fun entry hentry => isKnown_iff.2 (hknown entry hentry),
      bind_of_error (push_of_full hfull' _)]
    rfl
  | @placed op run rest hmeets hroom hknown hlt =>
    rw [hmeets.settle_eq, bind_of_ok (hmeets.times_shift hout hroom),
      wait_of_known fun entry hentry => isKnown_iff.2 (hknown entry hentry),
      bind_of_ok (push_of_room (by exact hlt) _), record_of_silent silent]
    rfl

end

-- One of the endings always applies.
theorem exists_placed (c : Converter) (hstack : (c.stack.size : Int) ≤ c.stack.capacity) : ∃ r, c.Placed r := by
  rcases pos_cases c with hpos | ⟨ch, hchar⟩
  · exact ⟨_, .pastEnd hpos⟩
  by_cases hop : ∃ op : Operator, op.char = ch
  · obtain ⟨op, rfl⟩ := hop
    have hsettles : ∀ entry, settles op entry = true ↔ Machine.Yields op entry := fun _ => settles_iff_yields
    obtain ⟨run, rest, hmeets⟩ := exists_meets hchar hsettles
    rcases Nat.lt_or_ge c.free run.length with hfull | hroom
    · exact ⟨_, .outputFull hmeets hfull⟩
    by_cases hknown : ∀ entry ∈ rest.head?, entry = "(" ∨ ∃ waiting : Operator, entry = waiting.symbol
    · by_cases hlt : (rest.length : Int) < c.stack.capacity
      · exact ⟨_, .placed hmeets hroom hknown hlt⟩
      · -- what has left the stack would leave room on it
        have hlength := hmeets.length_add_length
        have hrun : run = [] := List.length_eq_zero_iff.1 (by omega)
        subst hrun
        exact ⟨_, .stackFull hmeets hknown (by omega)⟩
    · cases rest with
      | nil => simp at hknown
      | cons entry rest =>
        simp only [List.head?_cons, Option.mem_def, Option.some.injEq, forall_eq', not_or, not_exists] at hknown
        exact ⟨_, .unknownEntry hmeets hroom hknown.1 hknown.2⟩
  · exact ⟨_, .noOperator hchar fun op h => hop ⟨op, h⟩⟩

/-- From every state whose containers hold no more than their capacities, while no observer stops it, the move
that places an operator has just the ending that applies.  Made entry by entry, with a refusal as soon as an unknown
entry is on top, it is the same move. -/
theorem placeOperator_eq_iff (silent : Silent watch) (hout : (c.output.size : Int) ≤ c.output.capacity)
    (hstack : (c.stack.size : Int) ≤ c.stack.capacity) :
    (∀ r, placeOperator watch c = r ↔ c.Placed r) ∧ placeOperator watch = placeOperatorByEntry watch := by
  refine ⟨fun r => ⟨fun h => ?_, placeOperator_of_placed silent hout⟩, ?_⟩
  · obtain ⟨r', hplaced⟩ := exists_placed c hstack
    rwa [← h, placeOperator_of_placed silent hout hplaced]
  · have hsettle : settle watch = settleByEntry watch :=
      funext fun op => funext fun start => settle_eq_settleByEntry watch op start
    rw [placeOperatorByEntry, ← hsettle]
    rfl

/-- A converter with one free place in the output, and two operators on the stack that apply before the one at
its position. -/
def crowded : Converter where
  text := "7-".toList
  pos := 1
  output := ⟨2, #["x", "7"], 1, by decide⟩
  stack := ⟨5, ["^", "*", "(", "?"]⟩
  operators := 0
  numbers := 0
  started := false
  log := #[]

/-- The first of the two operators is moved, and the second is lost. -/
theorem placeOperator_eq_iff_crowded :
    Silent none ∧ (crowded.output.size : Int) ≤ crowded.output.capacity ∧
      (crowded.stack.size : Int) ≤ crowded.stack.capacity ∧
      placeOperator none crowded = .error (.queue (.full 2)) { crowded with
        pos := 2
        output := ⟨2, #["x", "7", "^"], 1, by decide⟩
        stack := ⟨5, ["(", "?"]⟩ } := by
  have hmeets : crowded.Meets Operator.sub.char (Machine.Yields .sub) ["^", "*"] ["(", "?"] := by
    refine ⟨rfl, rfl, ?_, ?_⟩
    · simp only [← settles_iff_yields]
      decide
    · simp only [← settles_iff_yields]
      decide
  have hout : (crowded.output.size : Int) ≤ crowded.output.capacity := by decide
  have hstack : (crowded.stack.size : Int) ≤ crowded.stack.capacity := by decide
  exact ⟨silent_none, hout, hstack,
    ((placeOperator_eq_iff silent_none hout hstack).1 _).2 (.outputFull hmeets (by decide))⟩

/-! ## 3. Closing a group -/

/-- `c.Closed r`: a closing parenthesis is to be read at the position of `c`, and the move ends as `r` tells,
with its result and the converter after it.  Whatever lies above the innermost opening goes to the output as
far as there are free places. -/
inductive Closed (c : Converter) : EStateM.Result Fault Converter Unit → Prop where
  | pastEnd : c.text.length ≤ c.pos → Closed c (.error (.pastEnd c.pos) c)
  | otherToken {ch : Char} : c.text[c.pos]? = some ch → ch ≠ ')' →
      Closed c (.error (.malformed (.unexpectedToken ")" ch c.pos)) c)
  | outputFull {run rest : List String} :
      c.Meets ')' (· ≠ "(") run rest → c.free < run.length →
      Closed c (.error (.queue (.full c.output.capacity))
        (c.behind (run.take c.free) (run.drop (c.free + 1) ++ rest)))
  | mismatched {run : List String} :
      c.Meets ')' (· ≠ "(") run [] → run.length ≤ c.free →
      Closed c (.error (.malformed (.mismatchedClosing c.pos (c.pos + 1))) (c.behind run []))
  | closed {run rest : List String} :
      c.Meets ')' (· ≠ "(") run ("(" :: rest) → run.length ≤ c.free →
      Closed c (.ok () ((c.behind run rest).recorded c.pos ")" .closing))

/-- A closing parenthesis is read, and the stack is searched entry by entry. -/
def closeGroupByEntry (watch : Option Observer) : Conversion Unit := do
  let start := (← get).pos
  advance (some closing)
  closeByEntry watch start

theorem bne_opening_iff {entry : String} : (entry != opening) = true ↔ entry ≠ "(" := bne_iff_ne

theorem advance_of_closing (h : c.text[c.pos]? = some ')') :
    advance (some closing) c = .ok () { c with pos := c.pos + 1 } := by
  refine (bind_of_ok (current_of_some h) _).trans ?_
  rw [if_neg (by decide)]
  rfl

theorem advance_of_other {ch : Char} (h : c.text[c.pos]? = some ch) (hch : ch ≠ ')') :
    advance (some closing) c = .error (.malformed (.unexpectedToken ")" ch c.pos)) c := by
  have hne : String.singleton ch ≠ closing := fun he => hch (String.singleton_inj.1 he)
  refine (bind_of_ok (current_of_some h) _).trans ?_
  rw [if_pos hne]
  rfl

theorem Meets.closeAt_eq {run rest : List String} (h : c.Meets ')' (· ≠ "(") run rest) :
    closeGroup watch c =
      (times run.length shift >>= fun _ => leave watch c.pos) { c with pos := c.pos + 1 } := by
  rw [closeGroup, bind_get, bind_of_ok (advance_of_closing h.char)]
  refine Converter.closeAt_eq h.entries ?_ ?_
  · intro entry hentry
    exact bne_opening_iff.2 (h.run_moves entry hentry)
  · intro entry hentry
    rw [← Bool.not_eq_true, bne_opening_iff]
    exact h.rest_stays entry hentry

theorem closeGroup_of_closed (silent : Silent watch) (hout : (c.output.size : Int) ≤ c.output.capacity)
    {r : EStateM.Result Fault Converter Unit} (h : c.Closed r) : closeGroup watch c = r := by
  cases h with
  | pastEnd hpos =>
    rw [closeGroup, bind_get]
    exact bind_of_error (bind_of_error (current_of_le hpos) _) _
  | otherToken hchar hch => rw [closeGroup, bind_get, bind_of_error (advance_of_other hchar hch)]
  | outputFull hmeets hfull => rw [hmeets.closeAt_eq, bind_of_error (hmeets.times_shift_lost hout hfull)]
  | mismatched hmeets hroom =>
    rw [hmeets.closeAt_eq, bind_of_ok (hmeets.times_shift hout hroom), leave_of_nil rfl]
    rfl
  | closed hmeets hroom =>
    rw [hmeets.closeAt_eq, bind_of_ok (hmeets.times_shift hout hroom), leave_of_entries rfl,
      record_of_silent silent]
    rfl

theorem exists_closed (c : Converter) : ∃ r, c.Closed r := by
  rcases pos_cases c with hpos | ⟨ch, hchar⟩
  · exact ⟨_, .pastEnd hpos⟩
  by_cases hch : ch = ')'
  · subst hch
    obtain ⟨run, rest, hmeets⟩ := exists_meets hchar fun _ => bne_opening_iff
    rcases Nat.lt_or_ge c.free run.length with hfull | hroom
    · exact ⟨_, .outputFull hmeets hfull⟩
    cases rest with
    | nil => exact ⟨_, .mismatched hmeets hroom⟩
    | cons entry rest =>
      have hentry : entry = "(" := not_not.1 (hmeets.rest_stays entry rfl)
      subst hentry
      exact ⟨_, .closed hmeets hroom⟩
  · exact ⟨_, .otherToken hchar hch⟩

theorem Closed.counts {r : EStateM.Result Fault Converter Unit} (h : c.Closed r) {d : Converter}
    (hd : r = .ok () d ∨ ∃ e, r = .error e d) : d.operators = c.operators ∧ d.numbers = c.numbers := by
  cases h <;> rcases hd with hd | ⟨e, hd⟩ <;> cases hd <;> exact ⟨rfl, rfl⟩

theorem Closed.fault {r : EStateM.Result Fault Converter Unit} (h : c.Closed r) {e : Fault} {d : Converter}
    (hd : r = .error e d) :
    (∀ symbol, e ≠ .unknownOperator symbol) ∧ ∀ f, e = .malformed f → f.kind ≠ .missingOpening := by
  cases h <;> cases hd <;> simp [Diagnostic.unexpectedToken, Diagnostic.mismatchedClosing]

/-- From every state whose output holds no more than its capacity, while no observer stops it, the move that
closes a group has just the ending that applies.  Made entry by entry, with the question behind the search
whether it has found an opening, it is the same move: no entry is refused, and the question never fails.  The
counts stay as they are. -/
theorem closeGroup_eq_iff (silent : Silent watch) (hout : (c.output.size : Int) ≤ c.output.capacity) :
    (∀ r, closeGroup watch c = r ↔ c.Closed r) ∧
      closeGroup watch = closeGroupByEntry watch ∧
      (∀ e d, closeGroup watch c = .error e d →
        (∀ symbol, e ≠ .unknownOperator symbol) ∧ ∀ f, e = .malformed f → f.kind ≠ .missingOpening) ∧
      ∀ d, (closeGroup watch c = .ok () d ∨ ∃ e, closeGroup watch c = .error e d) →
        d.operators = c.operators ∧ d.numbers = c.numbers := by
  have hiff : ∀ r, closeGroup watch c = r ↔ c.Closed r := by
    intro r
    constructor
    · intro h
      obtain ⟨r', hclosed⟩ := exists_closed c
      rwa [← h, closeGroup_of_closed silent hout hclosed]
    · exact closeGroup_of_closed silent hout
  have hclosed : c.Closed (closeGroup watch c) := (hiff _).1 rfl
  refine ⟨hiff, ?_, fun e d he => hclosed.fault he, fun d hd => hclosed.counts hd⟩
  simp only [closeGroup, closeGroupByEntry, closeAt_eq_closeByEntry]

/-- A converter with two open groups, in the inner one of which there are an operator and a string that is
none. -/
def enclosed : Converter where
  text := "(5)".toList
  pos := 2
  output := ⟨3, #["5"], 0, Nat.zero_le _⟩
  stack := ⟨4, ["?", "*", "(", "("]⟩
  operators := 0
  numbers := 1
  started := false
  log := #[]

/-- Only the inner group is closed, whatever is in it. -/
theorem closeGroup_eq_iff_enclosed :
    Silent none ∧ (enclosed.output.size : Int) ≤ enclosed.output.capacity ∧
      closeGroup none enclosed = .ok () { enclosed with
        pos := 3
        output := ⟨3, #["5", "?", "*"], 0, Nat.zero_le _⟩
        stack := ⟨4, ["("]⟩
        log := #[⟨2, ")", .closing, ["5", "?", "*"], ["("]⟩] } := by
  have hmeets : enclosed.Meets ')' (· ≠ "(") ["?", "*"] ["(", "("] :=
    ⟨by decide, rfl, by decide, by decide⟩
  have hout : (enclosed.output.size : Int) ≤ enclosed.output.capacity := by decide
  exact ⟨silent_none, hout,
    ((closeGroup_eq_iff silent_none hout).1 _).2 (.closed hmeets (by decide))⟩

end Converter

end ReversePolish
