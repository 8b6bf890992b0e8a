import ReversePolish.Proofs.Conservation
import ReversePolish.Proofs.Refusal
import ReversePolish.Proofs.Tiling

/-!
# Observation — what an observer changes in a conversion

An observer is asked last in every move.  One that lets all events pass changes nothing, and one that stops at
an event leaves the converter as that event shows it, with the tokens counted that were read up to there.
-/

namespace ReversePolish

/-! ## 1. Tokens in events -/

/-- The tokens that were read according to the events `es`, one for each event but those of the drain. -/
def tokensRead (es : List Event) : List String :=
  (es.filter fun e => e.action ≠ .drain).map Event.token

def beginsWithDigit (s : String) : Bool := s.toList.head?.any digits.contains

namespace Token

variable {t : Token} {rest : List Char}

-- The text of a token tells of which kind it is.
theorem isSome_ofSymbol?_of_stands (h : t.lexeme.Stands rest) :
    (Operator.ofSymbol? t.text).isSome = t.isOperator := by
  rw [isOperator, text]
  cases ht : t.lexeme with
  | number literal =>
    rw [ht] at h
    cases h with
    | @number d run _ hd _ _ =>
      have hnumeric : t.Numeric := ⟨d, hd, run, ht⟩
      have hnone := hnumeric.ofSymbol?_text
      rw [text, ht] at hnone
      rw [hnone]
      rfl
  | operator op => rw [Lexeme.text, Operator.ofSymbol?_symbol]; rfl
  | opening => decide
  | closing => decide
  | invalid c =>
    rw [ht] at h
    cases h with
    | invalid _ _ hc => rw [Lexeme.text, Operator.ofSymbol?_singleton, Operator.ofChar?_of_notMem hc]; rfl

theorem beginsWithDigit_of_stands (h : t.lexeme.Stands rest) : beginsWithDigit t.text = t.isNumber := by
  rw [isNumber, beginsWithDigit, toList_text]
  cases ht : t.lexeme with
  | number literal =>
    rw [ht] at h
    cases h with
    | number hd _ _ => simpa [Lexeme.chars] using hd
  | operator op => simpa [Lexeme.chars] using op.char_notMem_digits
  | opening => decide
  | closing => decide
  | invalid c =>
    rw [ht] at h
    cases h with
    | invalid _ hdigit _ => simpa [Lexeme.chars] using hdigit

end Token

theorem tokensRead_map_event (before : List String) (moves : List Move) :
    tokensRead (moves.map (Move.event before)) =
      ((moves.filter fun m => m.action ≠ .drain).map Move.token).map Token.text := by
  rw [tokensRead, List.filter_map, List.map_map, List.map_map]
  rfl

-- The first moves of a scan and a drain behind it are about the first tokens of the scan.
theorem map_token_take {scanned drained : List Move} (hscanned : ∀ m ∈ scanned, m.action ≠ .drain)
    (hdrained : ∀ m ∈ drained, m.action = .drain) (n : Nat) :
    (((scanned ++ drained).take n).filter fun m => m.action ≠ .drain).map Move.token =
      (scanned.map Move.token).take n := by
  have hkept : ∀ m ∈ scanned.take n, decide (m.action ≠ .drain) = true :=
    fun m hm => decide_eq_true (hscanned m (List.mem_of_mem_take hm))
  have hleft : ∀ m ∈ drained.take (n - scanned.length), ¬ decide (m.action ≠ .drain) = true := by
    intro m hm
    simp [hdrained m (List.mem_of_mem_take hm)]
  rw [List.take_append, List.filter_append, List.filter_eq_self.2 hkept, List.filter_eq_nil_iff.2 hleft,
    List.append_nil, List.map_take]

namespace Yard

theorem tokens_take_convert {y : Yard} {ts : List Token} {stop n : Nat}
    (hn : n ≤ (y.convert ts stop).moves.length) :
    (((y.convert ts stop).moves.take n).filter fun m => m.action ≠ .drain).map Move.token = ts.take n := by
  cases hfault : (y.absorbAll ts).fault with
  | none =>
    obtain ⟨drained, hmoves, hdrained⟩ := moves_convert (y := y) ts stop
    rw [hmoves, map_token_take action_of_mem_absorbAll (fun m hm => (hdrained m hm).1),
      (moves_absorbAll hfault).1]
  | some d =>
    -- the moves end in front of the token at fault, and none of them is of the drain
    obtain ⟨before, t, after, rfl, hbefore, ht, -⟩ := exists_stop_of_fault hfault
    obtain ⟨htokens, -⟩ := moves_absorbAll hbefore
    rw [convert_of_stop hbefore ht] at hn ⊢
    have hlength : n ≤ before.length := by rwa [length_moves_absorbAll hbefore] at hn
    have hscanned : ∀ m ∈ (y.absorbAll before).moves, m.action ≠ .drain := action_of_mem_absorbAll
    have htake := map_token_take hscanned (List.forall_mem_nil _) n
    rw [List.append_nil, htokens] at htake
    rw [List.take_append_of_le_length hlength]
    exact htake

end Yard

/-! ## 2. Texts -/

section

variable {s : String} {ts : List Token} (reading : Reading 0 s.toList ts)

include reading

theorem tokensRead_take_events {n : Nat} (hn : n ≤ (events s).length) :
    tokensRead ((events s).take n) = (ts.take n).map Token.text := by
  rw [events_eq reading, List.length_map] at hn
  rw [events_eq reading, ← List.map_take, tokensRead_map_event, Yard.tokens_take_convert hn]

theorem countP_tokensRead {p : String → Bool} {q : Token → Bool}
    (h : ∀ {t : Token} {rest : List Char}, t.lexeme.Stands rest → p t.text = q t)
    {n : Nat} (hn : n ≤ (events s).length) :
    (tokensRead ((events s).take n)).countP p = (ts.take n).countP q := by
  rw [tokensRead_take_events reading hn, List.countP_map]
  apply List.countP_congr
  intro t ht
  obtain ⟨_, rest, -, -, hstands⟩ := reading.exists_place t (List.mem_of_mem_take ht)
  rw [Function.comp_apply, h hstands]

end

/-- The converter `c` as it is left by an observer that stops at number `n` of the events `es`: no event more
was recorded, the containers are as the last one shows them, and the counts are those of the tokens read. -/
structure LeftAt (es : List Event) (n : Nat) (c : Converter) : Prop where
  log : c.log.toList = es.take n
  shown : es[n - 1]?.map Event.machine = some c.machine
  operators : c.operators = (tokensRead (es.take n)).countP fun s => (Operator.ofSymbol? s).isSome
  numbers : c.numbers = (tokensRead (es.take n)).countP beginsWithDigit

/-- An observer that never stops a conversion changes nothing at all.  One that stops at event number `n` does
not change a conversion of fewer events either; of any other it takes what comes after that event.  Whatever
calls follow then, the converter refuses to convert once more and is not changed by the attempt. -/
theorem run_observed (s : String) (watch : Option Observer) :
    (Converter.Silent watch → run s watch = run s) ∧
    ∀ (n : Nat) (reason : String), 1 ≤ n → Converter.StopsAt watch (events s) n reason →
      ((events s).length < n → run s watch = run s) ∧
      (n ≤ (events s).length → ∃ c, run s watch = .error (.stopped reason) c ∧ LeftAt (events s) n c ∧
        ∀ (watch' : Option Observer) (calls more : List Converter.Call),
          Converter.session watch' c (calls ++ .convert :: more) =
            Converter.session watch' c calls ++
              ⟨.error .alreadyConverted, Converter.afterCalls watch' c calls, []⟩ ::
                Converter.session watch' (Converter.afterCalls watch' c calls) more) := by
  obtain ⟨ts, reading⟩ : ∃ ts, Reading 0 s.toList ts := ⟨_, reading_scan _ _⟩
  refine ⟨fun silent => run_of_passes reading (silent.passes _), ?_⟩
  intro n reason hn hstops
  refine ⟨fun hfewer => run_of_passes reading (hstops.passes hfewer), ?_⟩
  intro hlength
  obtain ⟨k, rfl⟩ : ∃ k, n = k + 1 := ⟨n - 1, by omega⟩
  obtain ⟨m, hm⟩ : ∃ m, (Yard.empty.convert ts s.toList.length).moves[k]? = some m := by
    rw [events_eq reading, List.length_map] at hlength
    exact ⟨_, List.getElem?_eq_getElem hlength⟩
  -- behind as many moves as tokens, or all of them, the counts of the yard are those of the tokens
  have hcounted := ((Yard.keeps_accounts ts s.toList.length).move_convert
    ⟨Yard.counted_empty, rfl, .nil⟩ hm).counted
  refine ⟨_, run_of_stopsAt reading hstops hm, ?_, fun _ calls more =>
    Converter.session_convert_of_started calls more rfl⟩
  constructor
  · rfl
  · rw [machine_holding, events_eq reading, Nat.add_sub_cancel, List.getElem?_map, hm]
    rfl
  · rw [countP_tokensRead reading Token.isSome_ofSymbol?_of_stands hlength]
    exact hcounted.operators
  · rw [countP_tokensRead reading Token.beginsWithDigit_of_stands hlength]
    exact hcounted.numbers

/-- An observer that stops as soon as the stack is drained. -/
def Observer.stopAtDrain (reason : String) : Observer := fun log =>
  if log.back?.any fun e => e.action = .drain then some reason else none

/-- Of the two operators that wait at the end of the text, the first one is moved when the observer stops.  In
the text without a second number nothing is drained, and with an observer that says nothing all goes on. -/
theorem run_observed_drain :
    Converter.StopsAt (some (Observer.stopAtDrain "halt")) (events "2 * (3 - 4) ^ 5") 10 "halt" ∧
      10 ≤ (events "2 * (3 - 4) ^ 5").length ∧
      (∃ c, run "2 * (3 - 4) ^ 5" (some (Observer.stopAtDrain "halt")) = .error (.stopped "halt") c ∧
        LeftAt (events "2 * (3 - 4) ^ 5") 10 c ∧
        c.machine = ⟨["2", "3", "4", "-", "5", "^"], ["*"]⟩ ∧ c.operators = 3 ∧ c.numbers = 4 ∧
        Converter.session none c [.convert] = [⟨.error .alreadyConverted, c, []⟩]) ∧
      (Converter.StopsAt (some (Observer.stopAtDrain "halt")) (events "2 *") 10 "halt" ∧
        (events "2 *").length < 10 ∧ run "2 *" (some (Observer.stopAtDrain "halt")) = run "2 *") ∧
      Converter.Silent (some fun _ => none) ∧
        run "2 * (3 - 4) ^ 5" (some fun _ => none) = run "2 * (3 - 4) ^ 5" := by
  have hstops : Converter.StopsAt (some (Observer.stopAtDrain "halt")) (events "2 * (3 - 4) ^ 5") 10 "halt" := by
    decide +kernel
  have hpasses : Converter.StopsAt (some (Observer.stopAtDrain "halt")) (events "2 *") 10 "halt" := by
    decide +kernel
  have hlength : 10 ≤ (events "2 * (3 - 4) ^ 5").length := by decide +kernel
  have hfewer : (events "2 *").length < 10 := by decide +kernel
  have hsilent : Converter.Silent (some fun _ => none) := fun _ => rfl
  obtain ⟨c, hrun, hleft, hsession⟩ :=
    ((run_observed "2 * (3 - 4) ^ 5" _).2 10 "halt" (by decide) hstops).2 hlength
  refine ⟨hstops, hlength, ⟨c, hrun, hleft, ?_, ?_, ?_, hsession none [] []⟩,
    ⟨hpasses, hfewer, ((run_observed "2 *" _).2 10 "halt" (by decide) hpasses).1 hfewer⟩,
    hsilent, (run_observed "2 * (3 - 4) ^ 5" _).1 hsilent⟩
  · have hshown : (events "2 * (3 - 4) ^ 5")[10 - 1]?.map Event.machine =
        some ⟨["2", "3", "4", "-", "5", "^"], ["*"]⟩ := by
      decide +kernel
    exact Option.some.inj (hleft.shown.symm.trans hshown)
  · rw [hleft.operators]
    decide +kernel
  · rw [hleft.numbers]
    decide +kernel

end ReversePolish
