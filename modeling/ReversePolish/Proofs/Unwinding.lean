import ReversePolish.Proofs.Moves

/-!
# Unwinding — operators and closing parentheses, entry by entry

An operator and a closing parenthesis may be read as loops that look at the top of the stack, let it go to
the output, and look again.  In that form a refusal can come between two entries, and after a closing
parenthesis one may ask once more whether an opening is on top.  The loops are the moves: the entries that
they let go are the longest run from the top, and the last question is never answered in the negative.
-/

namespace ReversePolish

/-- The search for an opening parenthesis ended without one. -/
def Diagnostic.missingOpening (start stop : Nat) : Diagnostic :=
  ⟨.missingOpening, "No left parenthesis found", start, stop⟩

namespace Converter

variable {c : Converter} {watch : Option Observer}

/-! ## 1. The loop -/

/-- Lets entries go from the top of the stack to the output, as long as `look` says so of the top; looks `n`
times at most. -/
def unwind (look : Option String → Conversion Bool) : Nat → Conversion Unit
  | 0 => pure ()
  | n + 1 => do
    if ← look (← get).stack.peek? then
      shift
      unwind look n

section

variable {look : Option String → Conversion Bool} {n : Nat} {s : String} {rest : List String}

theorem unwind_of_true (hlook : look c.stack.peek? c = .ok true c) :
    unwind look (n + 1) c = (shift >>= fun _ => unwind look n) c := by
  rw [unwind, bind_get, bind_of_ok hlook]
  rfl

theorem unwind_of_false (hlook : look c.stack.peek? c = .ok false c) : unwind look (n + 1) c = .ok () c := by
  rw [unwind, bind_get, bind_of_ok hlook]
  rfl

theorem unwind_of_error {e : Fault} (hlook : look c.stack.peek? c = .error e c) :
    unwind look (n + 1) c = .error e c := by
  rw [unwind, bind_get, bind_of_error hlook]

-- Whether the entry finds room or not, it is off the stack.
theorem shift_cases (h : c.stack.entries = s :: rest) :
    (∃ c', shift c = .ok () c' ∧ c'.stack.entries = rest) ∨ ∃ e c', shift c = .error e c' := by
  rw [shift, bind_of_ok (pop_of_entries h), enqueue]
  dsimp only
  cases c.output.enqueue s with
  | ok output => exact .inl ⟨_, rfl, rfl⟩
  | error e => exact .inr ⟨_, _, rfl⟩

-- A loop that lets the entries go of which `p` holds, and is then as good as `last`, moves the longest run of
-- them; `last` only counts where no such entry is on top.
theorem unwind_bind_eq {p : String → Bool} {next last : Conversion Unit}
    (hlook : ∀ s c, p s = true → look (some s) c = .ok true c)
    (hlast : ∀ c n, (∀ s ∈ c.stack.entries.head?, p s = false) →
      (unwind look (n + 1) >>= fun _ => next) c = last c) :
    (unwind look (c.stack.size + 1) >>= fun _ => next) c =
      (times (c.stack.entries.takeWhile p).length shift >>= fun _ => last) c := by
  generalize hentries : c.stack.entries = entries
  rw [Stack.size, hentries]
  induction entries generalizing c with
  | nil => exact hlast c 0 (by simp [hentries])
  | cons s rest ih =>
    cases hs : p s with
    | false =>
      rw [List.takeWhile_cons_of_neg (by simp [hs])]
      exact hlast c _ (by simp [hentries, hs])
    | true =>
      have hpeek : look c.stack.peek? c = .ok true c := by
        rw [Stack.peek?, hentries]
        exact hlook s c hs
      have hunwind := unwind_of_true (n := rest.length + 1) hpeek
      rw [List.takeWhile_cons_of_pos hs, List.length_cons, List.length_cons, times]
      rcases shift_cases hentries with ⟨c', hshift, hrest⟩ | ⟨e, c', hshift⟩
      · rw [bind_of_ok hshift] at hunwind
        have hstep := ih hrest
        rw [bind_assoc, bind_of_ok hshift, ← hstep]
        exact bind_eq_bind hunwind _
      · rw [bind_of_error hshift] at hunwind
        rw [bind_of_error hunwind, bind_assoc, bind_of_error hshift]

end

/-! ## 2. Operators -/

/-- Whether the top of the stack goes to the output before `op` waits: an operator that applies before it does,
an opening and the bottom do not, and any other entry is refused. -/
def lookBefore (op : Operator) : Option String → Conversion Bool
  | none => pure false
  | some entry =>
    if entry = opening then pure false
    else
      match Operator.ofSymbol? entry with
      | some waiting => pure (waiting.appliesBefore op)
      | none => throw (.unknownOperator entry)

def settleByEntry (watch : Option Observer) (op : Operator) (start : Nat) : Conversion Unit := do
  unwind (lookBefore op) ((← get).stack.size + 1)
  push op.symbol
  record watch start op.symbol .operator

section

variable {op : Operator} {s : String}

theorem lookBefore_of_settles (h : settles op s = true) (c : Converter) :
    lookBefore op (some s) c = .ok true c := by
  have hne : s ≠ opening := by
    rintro rfl
    contradiction
  rw [lookBefore, if_neg hne]
  unfold settles at h
  cases hs : Operator.ofSymbol? s with
  | none => simp [hs] at h
  | some waiting =>
    rw [hs] at h
    exact congrArg (EStateM.Result.ok · c) h

theorem lookBefore_of_known (h : settles op s = false) (hs : isKnown s = true) (c : Converter) :
    lookBefore op (some s) c = .ok false c := by
  rw [lookBefore]
  split
  · rfl
  · rename_i hne
    unfold settles at h
    unfold isKnown at hs
    cases hsymbol : Operator.ofSymbol? s with
    | none => simp [hne, hsymbol] at hs
    | some waiting =>
      rw [hsymbol] at h
      exact congrArg (EStateM.Result.ok · c) h

theorem lookBefore_of_unknown (op : Operator) (hs : isKnown s = false) (c : Converter) :
    lookBefore op (some s) c = .error (.unknownOperator s) c := by
  rw [isKnown, Bool.or_eq_false_iff, beq_eq_false_iff_ne, Option.isSome_eq_false_iff,
    Option.isNone_iff_eq_none] at hs
  rw [lookBefore, if_neg hs.1, hs.2]
  rfl

end

/-- An operator settles with the stack in the same way entry by entry. -/
theorem settle_eq_settleByEntry (watch : Option Observer) (op : Operator) (start : Nat) :
    settle watch op start = settleByEntry watch op start := by
  funext c
  have hlast : ∀ c n, (∀ s ∈ c.stack.entries.head?, settles op s = false) →
      (unwind (lookBefore op) (n + 1) >>= fun _ => push op.symbol >>= fun _ =>
        record watch start op.symbol .operator) c = wait watch op start c := by
    intro c n hhead
    cases hentries : c.stack.entries with
    | nil =>
      have hlook : lookBefore op c.stack.peek? c = .ok false c := by
        rw [Stack.peek?, hentries]
        rfl
      rw [bind_of_ok (unwind_of_false hlook), wait_of_known (by simp [hentries])]
    | cons s rest =>
      have hpeek : c.stack.peek? = some s := by rw [Stack.peek?, hentries]; rfl
      rw [hentries] at hhead
      cases hs : isKnown s with
      | true =>
        have hlook := lookBefore_of_known (hhead s rfl) hs c
        rw [← hpeek] at hlook
        rw [bind_of_ok (unwind_of_false hlook), wait_of_known (by simp [hentries, hs])]
      | false =>
        have hlook := lookBefore_of_unknown op hs c
        rw [← hpeek] at hlook
        rw [bind_of_error (unwind_of_error hlook), wait_of_unknown hentries hs]
  have hloop := unwind_bind_eq (c := c) (fun s c hs => lookBefore_of_settles hs c) hlast
  exact hloop.symm

/-! ## 3. Closing parentheses -/

/-- Whether the top of the stack goes to the output in the search for an opening; the bottom is refused. -/
def lookForOpening (start : Nat) : Option String → Conversion Bool
  | none => do throw (.malformed (.mismatchedClosing start (← get).pos))
  | some entry => pure (entry != opening)

/-- A closing parenthesis searches the stack entry by entry, and asks behind the search whether it has found
an opening. -/
def closeByEntry (watch : Option Observer) (start : Nat) : Conversion Unit := do
  unwind (lookForOpening start) ((← get).stack.size + 1)
  if (← get).stack.peek? ≠ some opening then
    throw (.malformed (.missingOpening start (← get).pos))
  discard pop
  record watch start closing .closing

/-- A closing parenthesis closes its group in the same way entry by entry, and always finds the opening behind
the search. -/
theorem closeAt_eq_closeByEntry (watch : Option Observer) (start : Nat) :
    closeAt watch start = closeByEntry watch start := by
  funext c
  have hlast : ∀ c n, (∀ s ∈ c.stack.entries.head?, (s != opening) = false) →
      (unwind (lookForOpening start) (n + 1) >>= fun _ => (do
        if (← get).stack.peek? ≠ some opening then
          throw (.malformed (.missingOpening start (← get).pos))
        discard pop
        record watch start closing .closing)) c = leave watch start c := by
    intro c n hhead
    cases hentries : c.stack.entries with
    | nil =>
      have hlook : lookForOpening start c.stack.peek? c =
          .error (.malformed (.mismatchedClosing start c.pos)) c := by
        rw [Stack.peek?, hentries]
        rfl
      rw [bind_of_error (unwind_of_error hlook), leave_of_nil hentries]
    | cons s rest =>
      rw [hentries] at hhead
      have hs : s = opening := by simpa using hhead s rfl
      have hpeek : c.stack.peek? = some opening := by rw [Stack.peek?, hentries, hs]; rfl
      have hlook : lookForOpening start c.stack.peek? c = .ok false c := by
        rw [hpeek]
        rfl
      rw [bind_of_ok (unwind_of_false hlook), bind_get, hpeek, if_neg (by simp), leave, bind_get, hpeek]
      rfl
  have hloop := unwind_bind_eq (c := c) (p := (· != opening))
    (fun s c hs => congrArg (EStateM.Result.ok · c) hs) hlast
  exact hloop.symm

end Converter

end ReversePolish
