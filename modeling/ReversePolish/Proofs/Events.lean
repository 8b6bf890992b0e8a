import ReversePolish.Proofs.Refinement

/-!
# Events — the moves of a conversion, one by one

What every move of a yard keeps holds after each of them.  The events of a text report the moves of its
yard, whoever observes them, and an observer that stops at an event finds the converter as the move left it.
-/

namespace ReversePolish

namespace Yard

/-! ## 1. Properties that every move keeps -/

/-- Every move of the conversion of `ts`, the tokens of a text of length `stop`, keeps the property `P`;
`P before y` says it of a yard `y` behind the tokens `before`. -/
structure Keeps (ts : List Token) (stop : Nat) (P : List Token → Yard → Prop) : Prop where
  absorb : ∀ {before after : List Token} {t : Token} {y : Yard}, ts = before ++ t :: after →
    y.complaint? t = none → P before y → P (before ++ [t]) (y.absorb t)
  pass : ∀ {y : Yard}, P ts y → P ts (y.pass stop)
  drain : ∀ {rest : List Token} {t : Token} {y : Yard}, y.waiting = t :: rest → t.opens = false →
    P ts y → P ts { y with output := y.output ++ [t], waiting := rest }

theorem length_moves_absorbAll {y : Yard} {ts : List Token} (h : (y.absorbAll ts).fault = none) :
    (y.absorbAll ts).moves.length = ts.length := by
  induction ts generalizing y with
  | nil => rfl
  | cons t ts ih =>
    obtain ⟨-, hrest, hcons⟩ := absorbAll_cons h
    rw [hcons]
    exact congrArg Nat.succ (ih hrest)

-- As long as no token ends the conversion, there is one move for each of them, where it stands.
theorem moves_absorbAll {y : Yard} {ts : List Token} (h : (y.absorbAll ts).fault = none) :
    (y.absorbAll ts).moves.map Move.token = ts ∧
      ∀ m ∈ (y.absorbAll ts).moves, m.position = m.token.start ∧ m.action = m.token.lexeme.action := by
  induction ts generalizing y with
  | nil => simp [absorbAll]
  | cons t ts ih =>
    obtain ⟨-, hrest, hcons⟩ := absorbAll_cons h
    obtain ⟨htokens, hplaces⟩ := ih hrest
    rw [hcons]
    refine ⟨congrArg (t :: ·) htokens, ?_⟩
    intro m hm
    rcases List.mem_cons.1 hm with rfl | hm
    · exact ⟨rfl, rfl⟩
    · exact hplaces m hm

-- A conversion that does not get through the tokens stops at the first one that ends it.
theorem exists_stop_of_fault {y : Yard} {ts : List Token} {d : Diagnostic}
    (h : (y.absorbAll ts).fault = some d) :
    ∃ before t after, ts = before ++ t :: after ∧ (y.absorbAll before).fault = none ∧
      (y.absorbAll before).last.complaint? t = some d ∧
      y.absorbAll ts = ⟨(y.absorbAll before).moves, (y.absorbAll before).last.absorb t, some d⟩ := by
  induction ts generalizing y with
  | nil => contradiction
  | cons t ts ih =>
    rw [absorbAll] at h ⊢
    cases hcomplaint : y.complaint? t with
    | none =>
      rw [hcomplaint] at h
      obtain ⟨before, u, after, rfl, hfault, hu, hcourse⟩ := ih h
      refine ⟨t :: before, u, after, rfl, ?_⟩
      rw [absorbAll, hcomplaint]
      exact ⟨hfault, hu, congrArg (Course.cons _) hcourse⟩
    | some f =>
      rw [hcomplaint] at h
      exact ⟨[], t, ts, rfl, rfl, hcomplaint.trans h, congrArg (Course.mk [] (y.absorb t)) h⟩

theorem absorbAll_of_stop {y : Yard} {before : List Token} {t : Token} {d : Diagnostic}
    (h : (y.absorbAll before).fault = none) (ht : (y.absorbAll before).last.complaint? t = some d)
    (after : List Token) :
    y.absorbAll (before ++ t :: after) =
      ⟨(y.absorbAll before).moves, (y.absorbAll before).last.absorb t, some d⟩ := by
  rw [absorbAll_append, Course.andThen_of_no_fault h, absorbAll, ht]
  dsimp only
  rw [List.append_nil]

-- What follows a token that ends the conversion makes no difference, and neither does the end of the text.
theorem convert_of_fault {y : Yard} {ts : List Token} {d : Diagnostic} (h : (y.absorbAll ts).fault = some d)
    (us : List Token) (stop : Nat) : y.convert (ts ++ us) stop = y.absorbAll ts := by
  rw [convert_append, Course.andThen_of_fault h]

theorem convert_of_stop {y : Yard} {before : List Token} {t : Token} {d : Diagnostic}
    (h : (y.absorbAll before).fault = none) (ht : (y.absorbAll before).last.complaint? t = some d)
    (after : List Token) (stop : Nat) :
    y.convert (before ++ t :: after) stop =
      ⟨(y.absorbAll before).moves, (y.absorbAll before).last.absorb t, some d⟩ := by
  have hcourse := absorbAll_of_stop h ht after
  rw [← List.append_nil (before ++ t :: after), convert_of_fault (congrArg Course.fault hcourse), hcourse]

theorem action_of_mem_absorbAll {y : Yard} {ts : List Token} :
    ∀ m ∈ (y.absorbAll ts).moves, m.action ≠ .drain := by
  induction ts generalizing y with
  | nil => simp [absorbAll]
  | cons t ts ih =>
    rw [absorbAll]
    cases y.complaint? t with
    | some d => simp
    | none =>
      intro m hm
      rcases List.mem_cons.1 hm with rfl | hm
      · cases t.lexeme <;> simp [Lexeme.action]
      · exact ih m hm

theorem forall_mem_drain {y : Yard} {ts : List Token} {stop : Nat} :
    ∀ m ∈ (y.drain stop ts).moves, m.action = .drain ∧ m.position = stop := by
  induction ts generalizing y with
  | nil => simp [drain]
  | cons t ts ih =>
    rw [drain]
    cases t.opens with
    | true => simp
    | false =>
      intro m hm
      rcases List.mem_cons.1 hm with rfl | hm
      · exact ⟨rfl, rfl⟩
      · exact ih m hm

-- The moves behind those of the tokens drain the stack, at the end of the text.
theorem moves_convert {y : Yard} (ts : List Token) (stop : Nat) :
    ∃ drained, (y.convert ts stop).moves = (y.absorbAll ts).moves ++ drained ∧
      ∀ m ∈ drained, m.action = .drain ∧ m.position = stop := by
  unfold convert
  cases hfault : (y.absorbAll ts).fault with
  | some d => exact ⟨[], by rw [Course.andThen_of_fault hfault, List.append_nil], by simp⟩
  | none =>
    rw [Course.andThen_of_no_fault hfault]
    refine ⟨_, rfl, ?_⟩
    rw [conclude]
    split
    · simp
    · exact fun m hm => forall_mem_drain m hm

namespace Keeps

variable {ts before after : List Token} {stop n : Nat} {P : List Token → Yard → Prop} {y : Yard} {m : Move}

theorem last_absorbAll (keeps : Keeps ts stop P) (hts : ts = before ++ after) (hy : P before y)
    (h : (y.absorbAll after).fault = none) : P ts (y.absorbAll after).last := by
  induction after generalizing before y with
  | nil =>
    rw [List.append_nil] at hts
    rw [hts]
    exact hy
  | cons t after ih =>
    obtain ⟨hcomplaint, hrest, hcons⟩ := absorbAll_cons h
    rw [hcons]
    exact ih (by rw [hts, List.append_cons]) (keeps.absorb hts hcomplaint hy) hrest

-- The first move absorbs the first token, and so on.
theorem move_absorbAll (keeps : Keeps ts stop P) (hts : ts = before ++ after) (hy : P before y)
    (hm : (y.absorbAll after).moves[n]? = some m) :
    P (ts.take (before.length + n + 1)) m.after := by
  induction after generalizing before y n with
  | nil => contradiction
  | cons t after ih =>
    rw [absorbAll] at hm
    cases hcomplaint : y.complaint? t with
    | none =>
      rw [hcomplaint] at hm
      have habsorb := keeps.absorb hts hcomplaint hy
      have hts' : ts = (before ++ [t]) ++ after := by rw [hts, List.append_cons]
      cases n with
      | zero =>
        cases hm
        rw [hts', List.take_left' (by simp)]
        exact habsorb
      | succ n =>
        have := ih hts' habsorb hm
        rwa [List.length_append, List.length_singleton,
          show before.length + 1 + n + 1 = before.length + (n + 1) + 1 by omega] at this
    | some d =>
      rw [hcomplaint] at hm
      contradiction

theorem move_drain (keeps : Keeps ts stop P) {waiting : List Token} (hwaiting : y.waiting = waiting)
    (hy : P ts y) : ∀ m ∈ (y.drain stop waiting).moves, P ts m.after := by
  induction waiting generalizing y with
  | nil => simp [Yard.drain]
  | cons t rest ih =>
    rw [Yard.drain]
    cases hopens : t.opens with
    | true => simp
    | false =>
      have hdrain := keeps.drain hwaiting hopens hy
      intro m hm
      rcases List.mem_cons.1 hm with rfl | hm
      · exact hdrain
      · exact ih rfl hdrain m hm

-- Behind the move of number `n`, counted from zero, lie `n + 1` tokens, or all of them.
theorem move_convert (keeps : Keeps ts stop P) (hy : P [] y)
    (hm : (y.convert ts stop).moves[n]? = some m) : P (ts.take (n + 1)) m.after := by
  have habsorb : (y.absorbAll ts).moves[n]? = some m → P (ts.take (n + 1)) m.after := by
    intro h
    have := keeps.move_absorbAll (List.nil_append ts).symm hy h
    rwa [List.length_nil, Nat.zero_add] at this
  unfold Yard.convert at hm
  cases hfault : (y.absorbAll ts).fault with
  | some d =>
    rw [Course.andThen_of_fault hfault] at hm
    exact habsorb hm
  | none =>
    rw [Course.andThen_of_no_fault hfault] at hm
    by_cases hn : n < (y.absorbAll ts).moves.length
    · exact habsorb (by rwa [List.getElem?_append_left hn] at hm)
    · -- all tokens are absorbed, and the stack is drained
      have hlength := length_moves_absorbAll hfault
      rw [List.take_of_length_le (by omega)]
      rw [List.getElem?_append_right (by omega), conclude] at hm
      split at hm
      · contradiction
      · have hlast := keeps.last_absorbAll (List.nil_append ts).symm hy hfault
        exact keeps.move_drain rfl (keeps.pass hlast) m (List.mem_of_getElem? hm)

end Keeps

end Yard

/-! ## 2. Observers -/

namespace Converter

variable {c : Converter} {watch : Option Observer} {last : Yard} {fault : Option Diagnostic}

-- An observer that waits for an event lets all others pass.
theorem replay_of_stopsAt {reason : String} {es : List Event} {moves : List Move} {m : Move} {n k : Nat}
    (h : StopsAt watch (c.log.toList ++ es ++ moves.map (Move.event c.output.toList)) n reason)
    (hn : c.log.size + es.length + k + 1 = n) (hm : moves[k]? = some m) :
    c.replay watch last fault es moves =
      .error (.stopped reason)
        (c.holding m.after (es ++ (moves.take (k + 1)).map (Move.event c.output.toList))) := by
  induction moves generalizing es k with
  | nil => contradiction
  | cons m' moves ih =>
    have hsize : (c.log.toList ++ es).length = c.log.size + es.length := by
      rw [List.length_append, Array.length_toList]
    have hverdict := h.verdict (by omega)
    rw [List.append_assoc, hsize] at hverdict
    rw [replay, record_holding, log_holding, hverdict]
    cases k with
    | zero =>
      cases hm
      rw [if_pos (by omega)]
      rfl
    | succ k =>
      have hn' : c.log.size + (es ++ [m'.event c.output.toList]).length + k + 1 = n := by
        rw [List.length_append, List.length_singleton]
        omega
      have hrest := ih (by simpa using h) hn' hm
      rw [List.append_assoc, List.singleton_append] at hrest
      rw [if_neg (by omega)]
      exact hrest

-- Whoever observes, the log goes on by the events of the first moves.
theorem exists_log_replay (watch : Option Observer) (last : Yard) (fault : Option Diagnostic)
    (es : List Event) (moves : List Move) :
    ∃ k, (match c.replay watch last fault es moves with
        | .ok _ d => d
        | .error _ d => d).log.toList =
      c.log.toList ++ es ++ (moves.take k).map (Move.event c.output.toList) := by
  induction moves generalizing es with
  | nil => exact ⟨0, by cases fault <;> simp [replay, holding]⟩
  | cons m moves ih =>
    rw [replay, record_holding]
    cases watch.bind fun observer => observer (c.holding m.after (es ++ [m.event c.output.toList])).log with
    | none =>
      obtain ⟨k, hk⟩ := ih (es ++ [m.event c.output.toList])
      refine ⟨k + 1, ?_⟩
      rw [← List.append_assoc, List.append_assoc _ [_]] at hk
      exact hk
    | some reason => exact ⟨1, by simp [holding]⟩

end Converter

/-! ## 3. Texts -/

section

variable {s : String} {ts : List Token} (reading : Reading 0 s.toList ts)

include reading

-- An observer that never stops a conversion leaves the converter where the course of the yard ends.
theorem finish_of_silent {watch : Option Observer} (silent : Converter.Silent watch) :
    finish s watch = (Converter.ofString s).start.holding (Yard.empty.convert ts s.toList.length).last
      ((Yard.empty.convert ts s.toList.length).moves.map (Move.event [])) := by
  rw [finish, run_eq reading, Converter.ending_of_silent silent]
  cases (Yard.empty.convert ts s.toList.length).fault with
  | none => rfl
  | some d => rfl

-- A text that is not accepted, though no observer stops its conversion, has the fault of its yard.
theorem eq_of_run_error {watch : Option Observer} {f : Fault} {c : Converter} (h : run s watch = .error f c)
    (unstopped : ∀ reason, f ≠ .stopped reason) :
    ∃ d, f = .malformed d ∧ (Yard.empty.convert ts s.toList.length).fault = some d ∧
      c = (Converter.ofString s).start.holding (Yard.empty.convert ts s.toList.length).last
        ((Yard.empty.convert ts s.toList.length).moves.map (Move.event [])) := by
  rw [run_eq reading] at h
  split at h
  · contradiction
  · rename_i e d hending
    cases h
    rcases Converter.eq_of_ending_error hending with ⟨reason, rfl⟩ | hfault
    · exact absurd rfl (unstopped reason)
    · exact hfault

-- The events of a text are those of the moves of its yard.
theorem events_of_silent {watch : Option Observer} (silent : Converter.Silent watch) :
    events s watch = (Yard.empty.convert ts s.toList.length).moves.map (Move.event []) := by
  rw [events, finish_of_silent reading silent]
  rfl

theorem events_eq :
    events s = (Yard.empty.convert ts s.toList.length).moves.map (Move.event []) :=
  events_of_silent reading Converter.silent_none

-- The events before the drain are those of the tokens.
theorem filter_events_ne_drain :
    (events s).filter (fun e => e.action ≠ .drain) =
      (Yard.empty.absorbAll ts).moves.map (Move.event []) := by
  have habsorb : ((Yard.empty.absorbAll ts).moves.map (Move.event [])).filter (fun e => e.action ≠ .drain) =
      (Yard.empty.absorbAll ts).moves.map (Move.event []) := by
    rw [List.filter_eq_self]
    intro e he
    obtain ⟨m, hm, rfl⟩ := List.mem_map.1 he
    exact decide_eq_true (Yard.action_of_mem_absorbAll m hm)
  obtain ⟨drained, hmoves, hdrained⟩ := Yard.moves_convert (y := Yard.empty) ts s.toList.length
  rw [events_eq reading, hmoves, List.map_append, List.filter_append, habsorb, List.append_right_eq_self,
    List.filter_eq_nil_iff]
  intro e he
  obtain ⟨m, hm, rfl⟩ := List.mem_map.1 he
  simp [Move.event, (hdrained m hm).1]

-- An observer can only cut the events short.
theorem exists_take_events (watch : Option Observer) :
    ∃ k, events s watch = (events s).take k := by
  obtain ⟨k, hk⟩ := Converter.exists_log_replay (c := (Converter.ofString s).start) watch
    (Yard.empty.convert ts s.toList.length).last (Yard.empty.convert ts s.toList.length).fault []
    (Yard.empty.convert ts s.toList.length).moves
  refine ⟨k, ?_⟩
  rw [events_eq reading, ← List.map_take, events, finish, run_eq reading, Converter.ending]
  cases hreplay : (Converter.ofString s).start.replay watch
      (Yard.empty.convert ts s.toList.length).last (Yard.empty.convert ts s.toList.length).fault []
      (Yard.empty.convert ts s.toList.length).moves with
  | ok a d => rwa [hreplay] at hk
  | error e d => rwa [hreplay] at hk

-- An observer that lets all events pass changes nothing.
theorem run_of_passes {watch : Option Observer} (h : Converter.Passes watch (events s)) :
    run s watch = run s := by
  rw [events_eq reading] at h
  rw [run_eq reading, run_eq reading, Converter.ending_of_silent Converter.silent_none,
    Converter.ending_of_passes h]

-- An observer that stops at an event finds the converter as the move of that event left it.
theorem run_of_stopsAt {watch : Option Observer} {n : Nat} {reason : String} {m : Move}
    (h : Converter.StopsAt watch (events s) (n + 1) reason)
    (hm : (Yard.empty.convert ts s.toList.length).moves[n]? = some m) :
    run s watch =
      .error (.stopped reason) ((Converter.ofString s).start.holding m.after ((events s).take (n + 1))) := by
  rw [events_eq reading] at h
  rw [run_eq reading, events_eq reading, ← List.map_take, Converter.ending]
  rw [Converter.replay_of_stopsAt h (by simp [Converter.start, Converter.ofString]) hm]
  rfl

theorem run_stopAt {n : Nat} {m : Move} (hm : (Yard.empty.convert ts s.toList.length).moves[n]? = some m)
    (reason : String) :
    run s (some (Observer.stopAt (n + 1) reason)) =
      .error (.stopped reason) ((Converter.ofString s).start.holding m.after ((events s).take (n + 1))) :=
  run_of_stopsAt reading (Converter.stopsAt_stopAt _ _ _) hm

end

end ReversePolish
