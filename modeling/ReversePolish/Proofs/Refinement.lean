import ReversePolish.Proofs.Moves
import ReversePolish.Proofs.Yard

/-!
# Refinement — a converter with room does what the yard does

A converter whose containers have room for the tokens that are still to come goes through the course of the
yard: it makes the same moves, reports them as events, and ends with the same fault.
-/

namespace ReversePolish

namespace Converter

/-! ## 1. A converter that holds a yard -/

/-- The converter that has gone on from `c` to the yard `y` and recorded `events` on the way. -/
def holding (c : Converter) (y : Yard) (events : List Event) : Converter :=
  { c with
    pos := y.pos
    output := c.output.extend (y.output.map Token.text)
    stack := { c.stack with entries := y.waiting.map Token.text }
    operators := y.operators
    numbers := y.numbers
    log := (c.log.toList ++ events).toArray }

/-- Whether both containers of `c` have room for `n` entries together with what the output of `c` holds. -/
def HasRoom (c : Converter) (n : Nat) : Prop :=
  (c.output.size + n : Int) ≤ c.output.capacity ∧ (c.output.size + n : Int) ≤ c.stack.capacity

variable {c : Converter} {watch : Option Observer} {y : Yard} {es : List Event}

theorem log_holding (y : Yard) (es : List Event) : (c.holding y es).log = (c.log.toList ++ es).toArray := rfl

theorem size_output_holding : (c.holding y es).output.size = c.output.size + y.output.length := by
  rw [holding, Queue.size_extend, List.length_map]

theorem capacity_output_holding : (c.holding y es).output.capacity = c.output.capacity :=
  Queue.capacity_extend _ _

theorem size_stack_holding : (c.holding y es).stack.size = y.waiting.length := by
  rw [holding, Stack.size, List.length_map]

theorem toList_output_holding :
    (c.holding y es).output.toList = c.output.toList ++ y.output.map Token.text :=
  Queue.toList_extend _ _

theorem extend_output_holding (c : Converter) (y : Yard) (es : List Event) (moved : List Token) :
    (c.holding y es).output.extend (moved.map Token.text) =
      c.output.extend ((y.output ++ moved).map Token.text) := by
  rw [List.map_append, Queue.extend_append]
  rfl

theorem push_log_holding (m : Move) :
    (c.holding m.after es).log.push ⟨m.position, m.token.text, m.action,
        (c.holding m.after es).output.toList, (c.holding m.after es).stack.entries⟩ =
      (c.holding m.after (es ++ [m.event c.output.toList])).log := by
  rw [toList_output_holding]
  simp only [holding, List.push_toArray, List.append_assoc]
  rfl

-- The report of a move adds its event and changes nothing else, whatever the observer says.
theorem record_holding (m : Move) :
    record watch m.position m.token.text m.action (c.holding m.after es) =
      match watch.bind fun observer => observer
        (c.holding m.after (es ++ [m.event c.output.toList])).log with
      | none => .ok () (c.holding m.after (es ++ [m.event c.output.toList]))
      | some reason => .error (.stopped reason) (c.holding m.after (es ++ [m.event c.output.toList])) := by
  rw [record, push_log_holding]
  rfl

theorem eq_of_record_holding {m : Move} {d : Converter}
    (h : record watch m.position m.token.text m.action (c.holding m.after es) = .ok () d) :
    d = c.holding m.after (es ++ [m.event c.output.toList]) := by
  rw [record_holding] at h
  split at h
  · cases h
    rfl
  · contradiction

/-! ## 2. One token -/

section

variable {t : Token} (waits : ∀ w ∈ y.waiting, w.waits = true) (room : c.HasRoom (y.size + 1))

include waits in
theorem forall_mem_map_takeWhile {p : String → Bool} {q : Token → Bool}
    (h : ∀ w : Token, w.waits = true → p w.text = q w) :
    ∀ s ∈ (y.waiting.takeWhile q).map Token.text, p s = true := by
  intro s hs
  obtain ⟨w, hw, rfl⟩ := List.mem_map.1 hs
  rw [h w (waits w ((List.takeWhile_sublist q).mem hw))]
  exact List.mem_takeWhile_imp hw

include waits in
theorem forall_head?_map_dropWhile {p : String → Bool} {q : Token → Bool}
    (h : ∀ w : Token, w.waits = true → p w.text = q w) :
    ∀ s ∈ ((y.waiting.dropWhile q).map Token.text).head?, p s = false ∧ isKnown s = true := by
  intro s hs
  rw [List.head?_map, Option.mem_def, Option.map_eq_some_iff] at hs
  obtain ⟨w, hw, rfl⟩ := hs
  have hwaits := waits w ((List.dropWhile_sublist q).mem (List.mem_of_mem_head? hw))
  have hq := List.head?_dropWhile_not q y.waiting
  rw [hw] at hq
  exact ⟨by rw [h w hwaits]; exact hq, Token.isKnown_text hwaits⟩

include waits room in
theorem settle_holding (op : Operator) (ht : t.lexeme = .operator op) :
    settle watch op t.start (c.holding { y with pos := t.stop, operators := y.operators + 1 } es) =
      record watch t.start t.text .operator (c.holding (y.absorb t) es) := by
  obtain ⟨hout, hstack⟩ := room
  have hlen := Yard.length_takeWhile_add_length_dropWhile (Token.settles op) y.waiting
  have htext : t.text = op.symbol := by rw [Token.text, ht]; rfl
  unfold Yard.size at hout hstack
  -- the stack shows the texts of what waits, split where the yard splits it
  rw [settle_of_room ((y.waiting.takeWhile (Token.settles op)).map Token.text)
    ((y.waiting.dropWhile (Token.settles op)).map Token.text), htext]
  · rw [extend_output_holding, Yard.absorb, ht]
    simp only [holding, List.map_cons, htext]
  · rw [← List.map_append, List.takeWhile_append_dropWhile]
    rfl
  · exact forall_mem_map_takeWhile waits fun w hw => Token.settles_text hw op
  · exact forall_head?_map_dropWhile waits fun w hw => Token.settles_text hw op
  · rw [size_output_holding, capacity_output_holding, List.length_map]
    push_cast
    omega
  · rw [List.length_map]
    show _ < c.stack.capacity
    omega

include waits room in
theorem closeAt_holding (ht : t.lexeme = .closing) :
    closeAt watch t.start (c.holding { y with pos := t.stop } es) =
      match y.complaint? t with
      | none => record watch t.start t.text .closing (c.holding (y.absorb t) es)
      | some d => .error (.malformed d) (c.holding (y.absorb t) es) := by
  obtain ⟨hout, hstack⟩ := room
  have hlen := Yard.length_takeWhile_add_length_dropWhile (!·.opens) y.waiting
  have htext : t.text = closing := by rw [Token.text, ht]; rfl
  unfold Yard.size at hout hstack
  rw [Yard.complaint?, Yard.absorb, ht, htext]
  dsimp only
  cases hany : y.waiting.any Token.opens with
  | false =>
    -- nothing opens: the whole stack goes to the output before the mismatch is found
    obtain ⟨htake, hdrop⟩ := Token.takeWhile_of_not_opens hany
    rw [htake, hdrop, closeAt_of_no_opening]
    · rw [show (c.holding { y with pos := t.stop } es).stack.entries = y.waiting.map Token.text from rfl,
        extend_output_holding]
      rfl
    · have := forall_mem_map_takeWhile (p := (· != opening)) (q := (!·.opens)) waits
        fun w hw => Token.text_bne_opening hw
      rw [htake] at this
      exact this
    · rw [size_output_holding, capacity_output_holding, size_stack_holding]
      push_cast
      omega
  | true =>
    obtain ⟨o, rest, hdrop, ho⟩ := Token.exists_dropWhile_opens hany
    have htake := List.takeWhile_append_dropWhile (p := (!·.opens)) (l := y.waiting)
    rw [hdrop] at htake hlen ⊢
    rw [closeAt_of_room ((y.waiting.takeWhile (!·.opens)).map Token.text) (rest.map Token.text)]
    · rw [extend_output_holding]
      rfl
    · have hopening : o.text = opening := by rw [Token.text, Token.opens_iff.1 ho]; rfl
      rw [← hopening, ← List.map_cons, ← List.map_append, htake]
      rfl
    · exact forall_mem_map_takeWhile waits fun w hw => Token.text_bne_opening hw
    · rw [size_output_holding, capacity_output_holding, List.length_map]
      push_cast
      omega

include waits room in
-- A token is absorbed as in the yard; what an observer says of it comes after all its changes.
theorem absorb_holding (watch : Option Observer) (es : List Event) :
    absorb watch t (c.holding y es) =
      match y.complaint? t with
      | none => record watch t.start t.text t.lexeme.action (c.holding (y.absorb t) es)
      | some d => .error (.malformed d) (c.holding (y.absorb t) es) := by
  have hroom := room
  obtain ⟨hout, hstack⟩ := hroom
  unfold Yard.size at hout hstack
  cases ht : t.lexeme with
  | number literal =>
    have htext : t.text = String.ofList literal := by rw [Token.text, ht]; rfl
    rw [absorb, Yard.complaint?, Yard.absorb, ht, htext]
    refine (bind_of_ok (enqueue_of_room ?_ _) _).trans ?_
    · show ((c.holding y es).output.size : Int) < (c.holding y es).output.capacity
      rw [size_output_holding, capacity_output_holding]
      push_cast
      omega
    · have := extend_output_holding c y es [t]
      rw [List.map_singleton, htext] at this
      simp only [holding, Lexeme.action] at this ⊢
      rw [← this]
      rfl
  | operator op =>
    rw [absorb, Yard.complaint?, ht]
    exact settle_holding waits room op ht
  | opening =>
    have htext : t.text = opening := by rw [Token.text, ht]; rfl
    rw [absorb, Yard.complaint?, Yard.absorb, ht, htext]
    refine (bind_of_ok (push_of_room ?_ _) _).trans ?_
    · show ((c.holding y es).stack.size : Int) < c.stack.capacity
      rw [size_stack_holding]
      omega
    · rw [← htext]
      rfl
  | closing =>
    rw [absorb, ht]
    exact closeAt_holding waits room ht
  | invalid ch =>
    rw [absorb, Yard.complaint?, Yard.absorb, ht]
    rfl

end

/-! ## 3. All tokens -/

/-- Reports moves in turn; behind the last one the course ends as told. -/
def replay (watch : Option Observer) (c : Converter) (last : Yard) (fault : Option Diagnostic) :
    List Event → List Move → EStateM.Result Fault Converter Unit
  | es, [] =>
    match fault with
    | none => .ok () (c.holding last es)
    | some d => .error (.malformed d) (c.holding last es)
  | es, m :: moves =>
    match record watch m.position m.token.text m.action (c.holding m.after es) with
    | .ok _ _ => replay watch c last fault (es ++ [m.event c.output.toList]) moves
    | .error e d => .error e d

/-- Where a course leaves a converter that started as `c`. -/
def ending (watch : Option Observer) (c : Converter) (es : List Event) (r : Course) :
    EStateM.Result Fault Converter Unit :=
  replay watch c r.last r.fault es r.moves

theorem ending_cons (watch : Option Observer) (c : Converter) (es : List Event) (m : Move)
    (r : Course) :
    c.ending watch es (r.cons m) =
      match record watch m.position m.token.text m.action (c.holding m.after es) with
      | .ok _ _ => c.ending watch (es ++ [m.event c.output.toList]) r
      | .error e d => .error e d := rfl

-- What stands before a course without a fault is either the end of it or a stop in it.
theorem replay_append (first second : List Move) (last last' : Yard) (fault : Option Diagnostic) :
    c.replay watch last fault es (first ++ second) =
      match c.replay watch last' none es first with
      | .ok _ _ => c.replay watch last fault (es ++ first.map (Move.event c.output.toList)) second
      | .error e d => .error e d := by
  -- the events of the first moves are behind those of `es` when the second ones begin
  induction first generalizing es with
  | nil => rw [List.nil_append, List.map_nil, List.append_nil]; rfl
  | cons m first ih =>
    rw [List.cons_append, replay, replay]
    cases record watch m.position m.token.text m.action (c.holding m.after es) with
    | ok a d => simp only [ih, List.map_cons, List.append_assoc, List.singleton_append]
    | error e d => rfl

theorem ending_andThen {r : Course} (h : r.fault = none) (next : Yard → Course) :
    c.ending watch es (r.andThen next) =
      match c.ending watch es r with
      | .ok _ _ => c.ending watch (es ++ r.moves.map (Move.event c.output.toList)) (next r.last)
      | .error e d => .error e d := by
  rw [Course.andThen_of_no_fault h, ending, ending, h]
  exact replay_append _ _ _ _ _

theorem eq_of_ending {r : Course} {d : Converter} (h : c.ending watch es r = .ok () d) :
    r.fault = none ∧ d = c.holding r.last (es ++ r.moves.map (Move.event c.output.toList)) := by
  obtain ⟨moves, last, fault⟩ := r
  induction moves generalizing es with
  | nil =>
    cases fault with
    | none =>
      cases h
      rw [List.map_nil, List.append_nil]
      exact ⟨rfl, rfl⟩
    | some d => contradiction
  | cons m moves ih =>
    have hcons := ending_cons watch c es m ⟨moves, last, fault⟩
    rw [Course.cons] at hcons
    rw [hcons] at h
    split at h
    · obtain ⟨hfault, hd⟩ := ih h
      rw [hd, List.map_cons, List.append_assoc, List.singleton_append]
      exact ⟨hfault, rfl⟩
    · contradiction

-- Whatever ends a course early is a stop by the observer, or the fault at the end of it.
theorem eq_of_ending_error {r : Course} {e : Fault} {d : Converter} (h : c.ending watch es r = .error e d) :
    (∃ reason, e = .stopped reason) ∨ ∃ f, e = .malformed f ∧ r.fault = some f ∧
      d = c.holding r.last (es ++ r.moves.map (Move.event c.output.toList)) := by
  obtain ⟨moves, last, fault⟩ := r
  induction moves generalizing es with
  | nil =>
    cases fault with
    | none => contradiction
    | some f =>
      cases h
      rw [List.map_nil, List.append_nil]
      exact .inr ⟨f, rfl, rfl, rfl⟩
  | cons m moves ih =>
    have hcons := ending_cons watch c es m ⟨moves, last, fault⟩
    rw [Course.cons] at hcons
    rw [hcons, record_holding] at h
    cases hwatch : watch.bind fun observer =>
        observer (c.holding m.after (es ++ [m.event c.output.toList])).log with
    | none =>
      rw [hwatch] at h
      rcases ih h with hstopped | ⟨f, he, hfault, hd⟩
      · exact .inl hstopped
      · rw [hd, List.map_cons, List.append_assoc, List.singleton_append]
        exact .inr ⟨f, he, hfault, rfl⟩
    | some reason =>
      rw [hwatch] at h
      cases h
      exact .inl ⟨reason, rfl⟩

theorem ending_of_passes {r : Course}
    (h : Passes watch (c.log.toList ++ es ++ r.moves.map (Move.event c.output.toList))) :
    c.ending watch es r =
      match r.fault with
      | none => .ok () (c.holding r.last (es ++ r.moves.map (Move.event c.output.toList)))
      | some d =>
        .error (.malformed d) (c.holding r.last (es ++ r.moves.map (Move.event c.output.toList))) := by
  obtain ⟨moves, last, fault⟩ := r
  induction moves generalizing es with
  | nil => rw [List.map_nil, List.append_nil]; rfl
  | cons m moves ih =>
    have hcons := ending_cons watch c es m ⟨moves, last, fault⟩
    have hverdict := h.verdict
    have hrest : Passes watch (c.log.toList ++ (es ++ [m.event c.output.toList]) ++
        moves.map (Move.event c.output.toList)) := by
      simpa using h
    rw [List.append_assoc] at hverdict
    rw [record_holding, log_holding, hverdict, ih hrest] at hcons
    rw [List.map_cons, List.append_cons]
    exact hcons

theorem ending_of_silent (silent : Silent watch) (r : Course) :
    c.ending watch es r =
      match r.fault with
      | none => .ok () (c.holding r.last (es ++ r.moves.map (Move.event c.output.toList)))
      | some d =>
        .error (.malformed d) (c.holding r.last (es ++ r.moves.map (Move.event c.output.toList))) :=
  ending_of_passes (silent.passes _)

theorem absorbAll_holding (watch : Option Observer) (es : List Event) {p q : Nat} {ts : List Token}
    (order : InOrder p q ts) (waits : ∀ w ∈ y.waiting, w.waits = true) (hsize : c.output.size + y.size ≤ p)
    (hout : (q : Int) ≤ c.output.capacity) (hstack : (q : Int) ≤ c.stack.capacity) :
    (ts.forM (absorb watch) : Conversion Unit) (c.holding y es) =
      c.ending watch es (y.absorbAll ts) := by
  induction ts generalizing y es p with
  | nil => rfl
  | cons t ts ih =>
    obtain ⟨hstart, hstop, horder⟩ := order
    have hq := horder.le
    -- a token has a place of its own, and with it an entry of both capacities
    have room : c.HasRoom (y.size + 1) := ⟨by omega, by omega⟩
    have hgrow := y.size_absorb_le t
    have hsize' : c.output.size + (y.absorb t).size ≤ t.stop := by omega
    have habsorb := absorb_holding (t := t) waits room watch es
    rw [Yard.absorbAll]
    cases hcomplaint : y.complaint? t with
    | none =>
      rw [hcomplaint] at habsorb
      dsimp only at habsorb ⊢
      rw [ending_cons]
      cases hrecord : record watch t.start t.text t.lexeme.action (c.holding (y.absorb t) es) with
      | ok a d =>
        have hd := eq_of_record_holding (m := ⟨t.start, t, t.lexeme.action, y.absorb t⟩) hrecord
        apply (bind_of_ok (habsorb.trans hrecord) _).trans
        rw [hd]
        exact ih _ horder (Yard.waits_absorb t waits) hsize'
      | error e d => exact bind_of_error (habsorb.trans hrecord) _
    | some d =>
      rw [hcomplaint] at habsorb
      exact bind_of_error habsorb _

/-! ## 4. The end of the text -/

theorem drainTop_holding (watch : Option Observer) (es : List Event) (stop : Nat) {t : Token}
    {rest : List Token} (h : y.waiting = t :: rest) (waits : t.waits = true) (room : c.HasRoom y.size) :
    drainTop watch stop (c.holding y es) =
      if t.opens then
        .error (.malformed (.unmatchedOpening stop)) (c.holding { y with waiting := rest } es)
      else record watch stop t.text .drain
        (c.holding { y with output := y.output ++ [t], waiting := rest } es) := by
  have hentries : (c.holding y es).stack.entries = t.text :: rest.map Token.text := by
    rw [holding, h]
    rfl
  have htext := Token.text_bne_opening waits
  rw [drainTop, bind_of_ok (pop_of_entries hentries)]
  cases hopens : t.opens with
  | true =>
    have ht : t.text = opening := by simpa [hopens] using htext
    rw [if_pos ht, if_pos rfl]
    rfl
  | false =>
    have ht : t.text ≠ opening := by simpa [hopens] using htext
    obtain ⟨hout, -⟩ := room
    rw [Yard.size, h, List.length_cons] at hout
    have hroom : ((c.output.extend (y.output.map Token.text)).size : Int) <
        (c.output.extend (y.output.map Token.text)).capacity := by
      rw [Queue.size_extend, Queue.capacity_extend, List.length_map]
      omega
    have hextend := extend_output_holding c y es [t]
    rw [if_neg ht, if_neg (by simp)]
    refine (bind_of_ok (enqueue_of_room ?_ t.text) _).trans ?_
    · exact hroom
    · simp only [holding, List.map_singleton] at hextend ⊢
      rw [← hextend]
      rfl

theorem drain_holding {ts : List Token} {stop : Nat} (h : y.waiting = ts)
    (waits : ∀ w ∈ ts, w.waits = true) (room : c.HasRoom y.size) :
    times ts.length (drainTop watch stop) (c.holding y es) = c.ending watch es (y.drain stop ts) := by
  induction ts generalizing y es with
  | nil =>
    have hy : { y with waiting := [] } = y := by rw [← h]
    rw [Yard.drain, hy]
    rfl
  | cons t rest ih =>
    have htop := drainTop_holding watch es stop h (waits t (by simp)) room
    rw [List.length_cons, times, Yard.drain]
    cases hopens : t.opens with
    | true =>
      rw [hopens, if_pos rfl] at htop
      rw [bind_of_error htop, if_pos rfl]
      rfl
    | false =>
      -- what is drained changes its container only, so the room is still enough
      have hsize : Yard.size { y with output := y.output ++ [t], waiting := rest } = y.size := by
        simp only [Yard.size, h, List.length_append, List.length_cons, List.length_nil]
        omega
      rw [hopens, if_neg (by simp)] at htop
      rw [if_neg (by simp), ending_cons]
      dsimp only
      cases hrecord : record watch stop t.text .drain
          (c.holding { y with output := y.output ++ [t], waiting := rest } es) with
      | ok a d =>
        have hd := eq_of_record_holding (m := ⟨stop, t, .drain, _⟩) hrecord
        rw [bind_of_ok (htop.trans hrecord), hd]
        exact ih rfl (fun w hw => waits w (by simp [hw])) (hsize ▸ room)
      | error e d => exact bind_of_error (htop.trans hrecord) _

theorem conclude_holding {stop : Nat} (hstop : c.text.length = stop)
    (waits : ∀ w ∈ y.waiting, w.waits = true) (room : c.HasRoom y.size) :
    (checkCounts >>= fun _ => drain watch) (c.holding y es) = c.ending watch es (y.conclude stop) := by
  rw [Yard.conclude]
  by_cases hcounts : y.numbers ≤ y.operators
  · rw [if_pos hcounts]
    have hcheck : checkCounts (c.holding y es) = .error
        (.malformed (.invalidOperatorCount y.operators y.numbers stop)) (c.holding y es) := by
      rw [checkCounts, bind_get, ← hstop]
      exact congrFun (if_pos hcounts) _
    exact bind_of_error hcheck _
  · rw [if_neg hcounts]
    have hcheck : checkCounts (c.holding y es) = .ok () (c.holding y es) := by
      rw [checkCounts, bind_get]
      exact congrFun (if_neg hcounts) _
    rw [bind_of_ok hcheck, drain, bind_get, ← drain_holding rfl waits room, size_stack_holding, ← hstop]
    rfl

/-! ## 5. The whole conversion -/

/-- A converter whose containers could hold the text and hold no more entries than characters lie behind it,
and on whose stack only known strings wait. -/
structure Fits (c : Converter) : Prop where
  output_capacity : (c.text.length : Int) ≤ c.output.capacity
  stack_capacity : (c.text.length : Int) ≤ c.stack.capacity
  room : c.output.size + c.stack.size ≤ c.pos
  pos_le : c.pos ≤ c.text.length
  known : ∀ s ∈ c.stack.entries, isKnown s = true

theorem fits_ofString (s : String) : Fits (ofString s) where
  output_capacity := Int.le_refl _
  stack_capacity := Int.le_refl _
  room := Nat.le_refl 0
  pos_le := Nat.zero_le _
  known := by simp [ofString, Stack.ofCapacity]

def start (c : Converter) : Converter := { c with started := true }

theorem Fits.start (fits : Fits c) : Fits c.start :=
  ⟨fits.output_capacity, fits.stack_capacity, fits.room, fits.pos_le, fits.known⟩

/-- The yard of a converter whose stack shows the tokens `ws`. -/
def yard (c : Converter) (ws : List Token) : Yard := ⟨c.pos, [], ws, c.operators, c.numbers⟩

theorem holding_yard {ws : List Token} (h : ws.map Token.text = c.stack.entries) :
    c.holding (c.yard ws) [] = c := by
  rw [holding, yard, h]
  simp [Queue.extend_nil]

theorem size_yard_le {ws : List Token} (fits : Fits c)
    (entries : ws.map Token.text = c.stack.entries) : c.output.size + (c.yard ws).size ≤ c.pos := by
  have room := fits.room
  rw [Stack.size, ← entries, List.length_map] at room
  rw [yard, Yard.size, List.length_nil, Nat.zero_add]
  exact room

theorem inOrder_of_reading {ts : List Token} (fits : Fits c)
    (reading : Reading c.pos (c.text.drop c.pos) ts) : InOrder c.pos c.text.length ts := by
  have order := reading.inOrder
  rwa [List.length_drop, Nat.add_sub_cancel' fits.pos_le] at order

section

variable {ws ts : List Token} (fits : Fits c) (entries : ws.map Token.text = c.stack.entries)
  (waits : ∀ w ∈ ws, w.waits = true) (reading : Reading c.pos (c.text.drop c.pos) ts)

include fits entries waits reading

theorem absorbText_of_fits (watch : Option Observer) :
    absorbText watch c =
      match c.ending watch [] ((c.yard ws).absorbAll ts) with
      | .ok _ d => .ok () { d with pos := max d.pos d.text.length }
      | .error e d => .error e d := by
  have hall := absorbAll_holding watch [] (y := c.yard ws) (inOrder_of_reading fits reading) waits
    (size_yard_le fits entries) fits.output_capacity fits.stack_capacity
  rw [holding_yard entries, reading.eq_scan] at hall
  rw [absorbText, bind_get, reading.eq_scan]
  cases hend : c.ending watch [] ((c.yard ws).absorbAll (scan c.pos (c.text.drop c.pos))) with
  | ok a d => exact bind_of_ok (hall.trans hend) _
  | error e d => exact bind_of_error (hall.trans hend) _

theorem conversion_of_fits (watch : Option Observer) :
    (absorbText watch >>= fun _ => checkCounts >>= fun _ => drain watch) c =
      c.ending watch [] ((c.yard ws).convert ts c.text.length) := by
  have habsorb := absorbText_of_fits fits entries waits reading watch
  unfold Yard.convert
  cases hfault : ((c.yard ws).absorbAll ts).fault with
  | none =>
    rw [ending_andThen hfault]
    cases hend : c.ending watch [] ((c.yard ws).absorbAll ts) with
    | ok a d =>
      rw [hend] at habsorb
      -- at the end of the text the containers hold no more entries than it has characters
      obtain ⟨-, rfl⟩ := eq_of_ending hend
      have hsize := Yard.size_absorbAll_le (inOrder_of_reading fits reading)
        (size_yard_le fits entries) hfault
      have hout := fits.output_capacity
      have hstack := fits.stack_capacity
      have room : c.HasRoom (((c.yard ws).absorbAll ts).last.pass c.text.length).size := by
        rw [Yard.size_pass]
        constructor <;> omega
      have hwaits : ∀ w ∈ (((c.yard ws).absorbAll ts).last.pass c.text.length).waiting,
          w.waits = true := Yard.waits_absorbAll ts waits
      exact (bind_of_ok habsorb _).trans (conclude_holding rfl hwaits room)
    | error e d =>
      rw [hend] at habsorb
      exact bind_of_error habsorb _
  | some f =>
    rw [Course.andThen_of_fault hfault]
    -- a course with a fault does not end well, whether an observer stops it before or not
    cases hend : c.ending watch [] ((c.yard ws).absorbAll ts) with
    | ok a d =>
      have := (eq_of_ending hend).1
      rw [hfault] at this
      contradiction
    | error e d =>
      rw [hend] at habsorb
      exact bind_of_error habsorb _

-- A converter that fits goes through the course of its yard, if it was not started before.
theorem convert_of_fits (watch : Option Observer) (fresh : c.started = false) :
    convert watch c =
      match c.start.ending watch [] ((c.yard ws).convert ts c.text.length) with
      | .ok _ d => .ok d.output d
      | .error e d => .error e d := by
  have hcourse := conversion_of_fits (c := c.start) fits.start entries waits reading watch
  have hstart : convert watch c =
      ((absorbText watch >>= fun _ => checkCounts >>= fun _ => drain watch) >>= fun _ =>
        get >>= fun d => pure d.output : Conversion (Queue String)) c.start := by
    rw [convert, bind_get, fresh]
    simp only [bind_assoc]
    rfl
  rw [hstart]
  cases hend : c.start.ending watch [] ((c.yard ws).convert ts c.text.length) with
  | ok a d => exact bind_of_ok (hcourse.trans hend) _
  | error e d => exact bind_of_error (hcourse.trans hend) _

end

theorem silent_none : Silent none := fun _ => rfl

end Converter

/-! ## 6. Texts -/

def Yard.empty : Yard := ⟨0, [], [], 0, 0⟩

theorem run_eq {s : String} {ts : List Token} (reading : Reading 0 s.toList ts)
    (watch : Option Observer) :
    run s watch =
      match (Converter.ofString s).start.ending watch [] (Yard.empty.convert ts s.toList.length) with
      | .ok _ d => .ok d.output d
      | .error e d => .error e d :=
  Converter.convert_of_fits (Converter.fits_ofString s) (show [].map Token.text = _ from rfl) (by simp)
    reading watch rfl

-- A text is converted as the yard converts its tokens.
theorem toReversePolish_eq {s : String} {ts : List Token} (reading : Reading 0 s.toList ts) :
    toReversePolish s =
      match (Yard.empty.convert ts s.toList.length).fault with
      | none => .ok ((Yard.empty.convert ts s.toList.length).last.output.map Token.text)
      | some d => .error (.malformed d) := by
  rw [toReversePolish, queueOf, run_eq reading, Converter.ending_of_silent Converter.silent_none]
  cases (Yard.empty.convert ts s.toList.length).fault with
  | none => exact congrArg Except.ok Converter.toList_output_holding
  | some d => rfl

end ReversePolish
