import ReversePolish.Proofs.Refinement

/-!
# Capacity — the containers never fill up

A token covers at least one character, so a converter that starts with no more entries than characters read
never has more than that.  Its containers are as good as unbounded: no move is refused, and larger
capacities change nothing.
-/

namespace ReversePolish

/-- The number of characters read when an event was recorded: those up to the end of its token, or all of
the text when the stack is drained. -/
def Event.read (e : Event) : Int :=
  match e.action with
  | .drain => e.position
  | _ => e.position + e.token.length

/-! ## 1. Entries and characters -/

/-- After the move `m`, the output and the stack hold no more than `m` had read, together with `k` more. -/
def Move.Within (k : Nat) (m : Move) : Prop :=
  ∀ before, (k + m.after.size : Int) ≤ (m.event before).read ∧ (m.event before).read ≤ m.after.pos

theorem Move.Within.length_event_le {q : Queue String} {m : Move} (h : m.Within q.size) :
    ((m.event q.toList).output.length + (m.event q.toList).stack.length : Int) ≤
      (m.event q.toList).read := by
  have hle := (h q.toList).1
  rw [Yard.size, Queue.size_eq_length_toList] at hle
  simp only [Move.event, List.length_append, List.length_map] at hle ⊢
  omega

namespace Yard

theorem within_absorb {y : Yard} {t : Token} {k : Nat} (h : y.complaint? t = none)
    (hsize : k + (y.absorb t).size ≤ t.stop) :
    Move.Within k ⟨t.start, t, t.lexeme.action, y.absorb t⟩ := by
  intro before
  have hread : (Move.event before ⟨t.start, t, t.lexeme.action, y.absorb t⟩).read = t.stop := by
    have hlen := t.length_text
    rw [Move.event, Event.read, Token.stop]
    cases ht : t.lexeme <;> simp [Lexeme.action, hlen, ht]
  rw [hread]
  dsimp only
  rw [pos_absorb h]
  omega

theorem within_absorbAll {y : Yard} {ts : List Token} {p q k : Nat} (order : InOrder p q ts)
    (h : k + y.size ≤ p) : ∀ m ∈ (y.absorbAll ts).moves, m.Within k := by
  induction ts generalizing y p with
  | nil => simp [absorbAll]
  | cons t ts ih =>
    obtain ⟨hstart, hstop, horder⟩ := order
    have hgrow := y.size_absorb_le t
    -- the bound before a token and the places of the token give the bound behind it
    have hsize : k + (y.absorb t).size ≤ t.stop := by omega
    rw [absorbAll]
    cases hcomplaint : y.complaint? t with
    | none =>
      intro m hm
      rcases List.mem_cons.1 hm with rfl | hm
      · exact within_absorb hcomplaint hsize
      · exact ih horder hsize m hm
    | some d => simp

-- Draining moves entries from the stack to the output and leaves their number as it is.
theorem within_drain {y : Yard} {ts : List Token} {stop k : Nat} (hwaiting : y.waiting = ts)
    (hpos : stop ≤ y.pos) (h : k + y.size ≤ stop) : ∀ m ∈ (y.drain stop ts).moves, m.Within k := by
  induction ts generalizing y with
  | nil => simp [drain]
  | cons t ts ih =>
    rw [drain]
    split
    · simp
    · have hsize : Yard.size { y with output := y.output ++ [t], waiting := ts } = y.size := by
        simp only [Yard.size, hwaiting, List.length_append, List.length_cons, List.length_nil]
        omega
      intro m hm
      rcases List.mem_cons.1 hm with rfl | hm
      · intro before
        rw [Move.event, Event.read]
        dsimp only
        rw [hsize]
        omega
      · exact ih (y := { y with output := y.output ++ [t], waiting := ts }) rfl hpos (by omega) m hm

theorem within_convert {y : Yard} {ts : List Token} {p q k : Nat} (order : InOrder p q ts)
    (h : k + y.size ≤ p) : ∀ m ∈ (y.convert ts q).moves, m.Within k := by
  have habsorb := within_absorbAll order h
  unfold convert
  cases hfault : (y.absorbAll ts).fault with
  | none =>
    rw [Course.andThen_of_no_fault hfault]
    intro m hm
    rcases List.mem_append.1 hm with hm | hm
    · exact habsorb m hm
    · unfold conclude at hm
      split at hm
      · contradiction
      · have hsize := size_absorbAll_le order h hfault
        rw [← size_pass _ q] at hsize
        exact within_drain rfl (Nat.le_max_right _ _) hsize m hm
  | some d =>
    rw [Course.andThen_of_fault hfault]
    exact habsorb

/-! ## 2. Kinds of faults -/

def faultKinds : List Diagnostic.Kind :=
  [.invalidToken, .mismatchedClosing, .invalidOperatorCount, .unmatchedOpening]

theorem kind_of_complaint {y : Yard} {t : Token} {d : Diagnostic} (h : y.complaint? t = some d) :
    d.kind ∈ faultKinds := by
  rcases complaint?_eq_some h with ⟨c, -, rfl⟩ | ⟨-, -, rfl⟩
  · simp [Diagnostic.invalidToken, faultKinds]
  · simp [Diagnostic.mismatchedClosing, faultKinds]

theorem kind_of_absorbAll {y : Yard} {ts : List Token} {d : Diagnostic}
    (h : (y.absorbAll ts).fault = some d) : d.kind ∈ faultKinds := by
  induction ts generalizing y with
  | nil => contradiction
  | cons t ts ih =>
    rw [absorbAll] at h
    cases hcomplaint : y.complaint? t with
    | none =>
      rw [hcomplaint] at h
      exact ih h
    | some d' =>
      rw [hcomplaint] at h
      cases h
      exact kind_of_complaint hcomplaint

theorem kind_of_conclude {y : Yard} {stop : Nat} {d : Diagnostic} (h : (y.conclude stop).fault = some d) :
    d.kind ∈ faultKinds := by
  rcases conclude_eq_some h with ⟨-, rfl⟩ | ⟨-, -, rfl⟩
  · simp [Diagnostic.invalidOperatorCount, faultKinds]
  · simp [Diagnostic.unmatchedOpening, faultKinds]

theorem kind_of_convert {y : Yard} {ts : List Token} {stop : Nat} {d : Diagnostic}
    (h : (y.convert ts stop).fault = some d) : d.kind ∈ faultKinds := by
  unfold convert at h
  cases hfault : (y.absorbAll ts).fault with
  | none =>
    rw [Course.andThen_of_no_fault hfault] at h
    exact kind_of_conclude h
  | some f =>
    rw [Course.andThen_of_fault hfault] at h
    exact kind_of_absorbAll h

end Yard

/-! ## 3. Other capacities -/

def Queue.withCapacity {α : Type} (q : Queue α) (k : Int) : Queue α := { q with capacity := k }

theorem Queue.extend_withCapacity {α : Type} (q : Queue α) (k : Int) (items : List α) :
    (q.withCapacity k).extend items = (q.extend items).withCapacity k := by
  induction items generalizing q with
  | nil => rfl
  | cons a items ih => exact ih (q.append a)

namespace Converter

def withCapacity (c : Converter) (k : Int) : Converter :=
  { c with output := c.output.withCapacity k, stack := { c.stack with capacity := k } }

variable {c : Converter} {watch : Option Observer}

theorem holding_withCapacity (k : Int) (y : Yard) (es : List Event) :
    (c.withCapacity k).holding y es = (c.holding y es).withCapacity k := by
  rw [holding, withCapacity]
  dsimp only
  rw [Queue.extend_withCapacity]
  rfl

theorem record_withCapacity (k : Int) (position : Int) (token : String) (action : Action) :
    record watch position token action (c.withCapacity k) =
      match record watch position token action c with
      | .ok a d => .ok a (d.withCapacity k)
      | .error e d => .error e (d.withCapacity k) := by
  rw [record, record]
  cases hwatch : watch.bind fun observer => observer
      (c.log.push ⟨position, token, action, c.output.toList, c.stack.entries⟩) with
  | none =>
    -- no event shows a capacity, so the observer sees the same
    have hwatch' : (watch.bind fun observer => observer ((c.withCapacity k).log.push
        ⟨position, token, action, (c.withCapacity k).output.toList, (c.withCapacity k).stack.entries⟩)) =
        none := hwatch
    rw [hwatch']
    rfl
  | some reason =>
    have hwatch' : (watch.bind fun observer => observer ((c.withCapacity k).log.push
        ⟨position, token, action, (c.withCapacity k).output.toList, (c.withCapacity k).stack.entries⟩)) =
        some reason := hwatch
    rw [hwatch']
    rfl

theorem replay_withCapacity (k : Int) (last : Yard) (fault : Option Diagnostic) (es : List Event)
    (moves : List Move) :
    (c.withCapacity k).replay watch last fault es moves =
      match c.replay watch last fault es moves with
      | .ok a d => .ok a (d.withCapacity k)
      | .error e d => .error e (d.withCapacity k) := by
  induction moves generalizing es with
  | nil =>
    cases fault with
    | none => exact congrArg (EStateM.Result.ok ()) (holding_withCapacity k last es)
    | some d => exact congrArg (EStateM.Result.error (Fault.malformed d)) (holding_withCapacity k last es)
  | cons m moves ih =>
    rw [replay, replay, holding_withCapacity, record_withCapacity]
    cases record watch m.position m.token.text m.action (c.holding m.after es) with
    | ok a d => exact ih _
    | error e d => rfl

theorem ending_withCapacity (k : Int) (es : List Event) (r : Course) :
    (c.withCapacity k).ending watch es r =
      match c.ending watch es r with
      | .ok a d => .ok a (d.withCapacity k)
      | .error e d => .error e (d.withCapacity k) :=
  replay_withCapacity k _ _ _ _

theorem Fits.withCapacity (fits : Fits c) {k : Int} (hk : (c.text.length : Int) ≤ k) :
    Fits (c.withCapacity k) :=
  ⟨hk, hk, fits.room, fits.pos_le, fits.known⟩

-- With capacities for the text, larger ones change neither the result nor the events.
theorem convert_withCapacity (fits : Fits c) (fresh : c.started = false) {k : Int}
    (hk : (c.text.length : Int) ≤ k) :
    convert watch (c.withCapacity k) =
      match convert watch c with
      | .ok q d => .ok (q.withCapacity k) (d.withCapacity k)
      | .error e d => .error e (d.withCapacity k) := by
  obtain ⟨ws, waits, entries⟩ := Token.exists_map_text_eq fits.known
  have reading := reading_scan c.pos (c.text.drop c.pos)
  have hwide : convert watch (c.withCapacity k) =
      match (c.start.withCapacity k).ending watch []
        ((c.yard ws).convert (scan c.pos (c.text.drop c.pos)) c.text.length) with
      | .ok _ d => .ok d.output d
      | .error e d => .error e d :=
    convert_of_fits (fits.withCapacity hk) entries waits reading watch fresh
  rw [hwide, ending_withCapacity, convert_of_fits fits entries waits reading _ fresh]
  cases c.start.ending watch [] ((c.yard ws).convert _ _) <;> rfl

/-! ## 4. Stops -/

-- An observer stops a course at the state after one of its moves.
theorem exists_move_of_stopped {reason : String} {d : Converter} {last : Yard}
    {fault : Option Diagnostic} {es : List Event} {moves : List Move}
    (h : c.replay watch last fault es moves = .error (.stopped reason) d) :
    ∃ m ∈ moves, ∃ es', d = c.holding m.after es' := by
  induction moves generalizing es with
  | nil => cases fault <;> cases h
  | cons m moves ih =>
    rw [replay, record_holding] at h
    split at h
    · obtain ⟨m', hm', es', hd⟩ := ih h
      exact ⟨m', List.mem_cons_of_mem m hm', es', hd⟩
    · rename_i e d' hrecord
      split at hrecord
      · contradiction
      · cases hrecord
        cases h
        exact ⟨m, List.mem_cons_self, _, rfl⟩

/-! ## 5. Conversions that fit -/

/-- From every state whose containers fit the text, and so from the start of every text, a conversion under
a silent observer ends with a result or with one of four diagnostics.  At every event the containers hold
together at most as many entries as characters were read, also when the converter is looked at in the
moment of the event, and larger capacities change nothing. -/
theorem convert_bounded :
    (∀ s, Fits (ofString s) ∧ (ofString s).started = false) ∧
    ∀ (c : Converter) (watch : Option Observer), Fits c → c.started = false → Silent watch →
      (∃ d : Converter,
        ((∃ q, convert watch c = .ok q d) ∨
          ∃ f : Diagnostic, convert watch c = .error (.malformed f) d ∧
            f.kind ∈ [.invalidToken, .mismatchedClosing, .invalidOperatorCount, .unmatchedOpening]) ∧
        ∃ new, d.log.toList = c.log.toList ++ new ∧
          ∀ e ∈ new, (e.output.length + e.stack.length : Int) ≤ e.read) ∧
      (∀ n reason d, convert (some (Observer.stopAt n reason)) c = .error (.stopped reason) d →
        d.output.size + d.stack.size ≤ d.pos) ∧
      ∀ k : Int, c.text.length ≤ k →
        convert watch (c.withCapacity k) =
          match convert watch c with
          | .ok q d => .ok (q.withCapacity k) (d.withCapacity k)
          | .error e d => .error e (d.withCapacity k) := by
  refine ⟨fun s => ⟨fits_ofString s, rfl⟩, ?_⟩
  intro c watch fits fresh silent
  obtain ⟨ws, waits, entries⟩ := Token.exists_map_text_eq fits.known
  obtain ⟨ts, reading⟩ : ∃ ts, Reading c.pos (c.text.drop c.pos) ts := ⟨_, reading_scan _ _⟩
  have hwithin := Yard.within_convert (inOrder_of_reading fits reading) (size_yard_le fits entries)
  refine ⟨?_, ?_, fun k hk => convert_withCapacity fits fresh hk⟩
  · -- the course goes on to its end, and its fault is the only one there is
    have hconvert := convert_of_fits fits entries waits reading watch fresh
    rw [ending_of_silent silent, List.nil_append] at hconvert
    have hlog : ∀ y es, (c.start.holding y es).log.toList = c.log.toList ++ es := by
      intro y es
      rw [holding, start]
    have hevents : ∀ e ∈ ((c.yard ws).convert ts c.text.length).moves.map (Move.event c.output.toList),
        (e.output.length + e.stack.length : Int) ≤ e.read := by
      intro e he
      obtain ⟨m, hm, rfl⟩ := List.mem_map.1 he
      exact (hwithin m hm).length_event_le
    cases hfault : ((c.yard ws).convert ts c.text.length).fault with
    | none =>
      rw [hfault] at hconvert
      exact ⟨_, .inl ⟨_, hconvert⟩, _, hlog _ _, hevents⟩
    | some f =>
      rw [hfault] at hconvert
      exact ⟨_, .inr ⟨f, hconvert, Yard.kind_of_convert hfault⟩, _, hlog _ _, hevents⟩
  · -- a stop leaves the converter as it was at one of the moves
    intro n reason d hstop
    rw [convert_of_fits fits entries waits reading _ fresh, ending] at hstop
    split at hstop
    · contradiction
    · rename_i e d' hreplay
      cases hstop
      obtain ⟨m, hm, es', rfl⟩ := exists_move_of_stopped hreplay
      have hle := hwithin m hm []
      rw [size_output_holding, size_stack_holding]
      unfold Yard.size at hle
      show c.output.size + _ + _ ≤ m.after.pos
      omega

/-- A converter in the middle of a text, with an item in the output that no token of it stands for. -/
def resumed : Converter where
  text := "1*(2-3))".toList
  pos := 3
  output := ⟨8, #["7"], 0, by decide⟩
  stack := ⟨8, ["(", "*"]⟩
  operators := 5
  numbers := 0
  started := false
  log := #[]

theorem convert_bounded_resumed :
    Fits resumed ∧ resumed.started = false ∧ Silent (some fun _ => none) ∧
      ∃ d : Converter,
        ((∃ q, convert (some fun _ => none) resumed = .ok q d) ∨
          ∃ f : Diagnostic, convert (some fun _ => none) resumed = .error (.malformed f) d ∧
            f.kind ∈ [.invalidToken, .mismatchedClosing, .invalidOperatorCount, .unmatchedOpening]) ∧
        ∃ new, d.log.toList = resumed.log.toList ++ new ∧
          ∀ e ∈ new, (e.output.length + e.stack.length : Int) ≤ e.read := by
  have fits : Fits resumed := ⟨by decide, by decide, by decide, by decide, by decide⟩
  have silent : Silent (some fun _ => none) := fun _ => rfl
  exact ⟨fits, rfl, silent, (convert_bounded.2 resumed _ fits rfl silent).1⟩

end Converter

end ReversePolish
