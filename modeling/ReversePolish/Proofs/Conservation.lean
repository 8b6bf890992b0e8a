import ReversePolish.Proofs.Events
import ReversePolish.Proofs.Outcome

/-!
# Conservation — no token is lost and none appears twice

After every event each number read so far is in the output, in the order of the text, and each operator is
in the output or on the stack.  The stack holds an opening parenthesis for each group that is still open.
-/

namespace ReversePolish

/-! ## 1. Tokens in the output and on the stack -/

/-- The tokens `seen` went to the output or wait on the stack: the numbers in their order, the operators in
any. -/
structure Holds (seen output waiting : List Token) : Prop where
  numbers : output.filter Token.isNumber = seen.filter Token.isNumber
  operators : ((output ++ waiting).filter Token.isOperator).Perm (seen.filter Token.isOperator)
  shown : ∀ t ∈ output, t.isNumber = true ∨ t.isOperator = true
  waits : ∀ t ∈ waiting, t.waits = true

namespace Holds

variable {seen output waiting flushed rest : List Token} {t : Token}

theorem isNumber_of_waits (h : t.waits = true) : t.isNumber = false := by
  rw [Token.isNumber]
  rcases Token.waits_iff.1 h with ht | ⟨op, ht⟩ <;> rw [ht]

theorem filter_isNumber_of_waits (h : ∀ t ∈ waiting, t.waits = true) :
    waiting.filter Token.isNumber = [] := by
  rw [List.filter_eq_nil_iff]
  intro t ht
  rw [isNumber_of_waits (h t ht)]
  simp

protected theorem nil : Holds [] [] [] := ⟨rfl, .nil, by simp, by simp⟩

-- Operators that leave the stack for the output stay what they are.
theorem flush (h : Holds seen output (flushed ++ rest)) (hops : ∀ w ∈ flushed, w.isOperator = true) :
    Holds seen (output ++ flushed) rest where
  numbers := by
    have hwaits : ∀ w ∈ flushed, w.waits = true := fun w hw => h.waits w (by simp [hw])
    rw [List.filter_append, filter_isNumber_of_waits hwaits, List.append_nil]
    exact h.numbers
  operators := by
    rw [List.append_assoc]
    exact h.operators
  shown w hw := by
    rcases List.mem_append.1 hw with hw | hw
    · exact h.shown w hw
    · exact .inr (hops w hw)
  waits w hw := h.waits w (by simp [hw])

theorem number (h : Holds seen output waiting) (ht : t.isNumber = true) (hop : t.isOperator = false) :
    Holds (seen ++ [t]) (output ++ [t]) waiting where
  numbers := by rw [List.filter_append, List.filter_append, h.numbers]
  operators := by
    have hnone : [t].filter Token.isOperator = [] := List.filter_cons_of_neg (by simp [hop])
    rw [List.filter_append, List.filter_append, List.filter_append, hnone, List.append_nil, List.append_nil,
      ← List.filter_append]
    exact h.operators
  shown w hw := by
    rcases List.mem_append.1 hw with hw | hw
    · exact h.shown w hw
    · exact .inl (List.mem_singleton.1 hw ▸ ht)
  waits := h.waits

-- An operator that is pushed counts as the last one read, and an opening parenthesis as none.
theorem push (h : Holds seen output waiting) (ht : t.waits = true) :
    Holds (seen ++ [t]) output (t :: waiting) where
  numbers := by
    have hnone : [t].filter Token.isNumber = [] :=
      List.filter_cons_of_neg (by simp [isNumber_of_waits ht])
    rw [List.filter_append, hnone, List.append_nil]
    exact h.numbers
  operators := by
    have hlast : (output ++ t :: waiting).Perm ((output ++ waiting) ++ [t]) :=
      List.perm_middle.trans (List.perm_append_singleton t _).symm
    refine (hlast.filter Token.isOperator).trans ?_
    rw [List.filter_append, List.filter_append seen]
    exact h.operators.append_right _
  shown := h.shown
  waits w hw := by
    rcases List.mem_cons.1 hw with rfl | hw
    · exact ht
    · exact h.waits w hw

-- A closing parenthesis takes away what is no operator.
theorem close (h : Holds seen output waiting) (ht : t.lexeme = .closing)
    (hopens : ∀ o ∈ waiting.head?, o.opens = true) : Holds (seen ++ [t]) output waiting.tail where
  numbers := by
    have hnone : [t].filter Token.isNumber = [] := List.filter_cons_of_neg (by simp [Token.isNumber, ht])
    rw [List.filter_append, hnone, List.append_nil]
    exact h.numbers
  operators := by
    have hnone : [t].filter Token.isOperator = [] :=
      List.filter_cons_of_neg (by simp [Token.isOperator, ht])
    have htail : waiting.tail.filter Token.isOperator = waiting.filter Token.isOperator := by
      cases waiting with
      | nil => rfl
      | cons o rest =>
        have ho := Token.opens_iff.1 (hopens o rfl)
        rw [List.tail_cons, List.filter_cons_of_neg (by simp [Token.isOperator, ho])]
    rw [List.filter_append, htail, ← List.filter_append, List.filter_append seen, hnone, List.append_nil]
    exact h.operators
  shown := h.shown
  waits w hw := h.waits w (List.mem_of_mem_tail hw)

end Holds

/-! ## 2. The yard -/

namespace Yard

/-- The yard `y` keeps account of the tokens `seen`, the last of which did not end the conversion: each
group that is not closed is open. -/
structure Accounts (seen : List Token) (y : Yard) : Prop where
  counted : Counted seen y
  closed : unclosed seen + seen.countP Token.closes = seen.countP Token.opens
  holds : Holds seen y.output y.waiting

-- A closing parenthesis that finds no group would end the conversion.
theorem Accounts.unclosed_pos {seen : List Token} {y : Yard} {t : Token} (h : Accounts seen y)
    (hcomplaint : y.complaint? t = none) (ht : t.lexeme = .closing) : 0 < unclosed seen := by
  by_contra hzero
  have hany := h.counted.any_opens.not.2 hzero
  rw [complaint?, ht] at hcomplaint
  simp [hany] at hcomplaint

theorem holds_absorb {seen : List Token} {y : Yard} {t : Token} (h : Holds seen y.output y.waiting)
    (hcomplaint : y.complaint? t = none) :
    Holds (seen ++ [t]) (y.absorb t).output (y.absorb t).waiting := by
  cases ht : t.lexeme with
  | number literal =>
    rw [absorb_of_number ht]
    exact h.number (by rw [Token.isNumber, ht]) (by rw [Token.isOperator, ht])
  | operator op =>
    rw [absorb_of_operator ht]
    rw [← List.takeWhile_append_dropWhile (p := Token.settles op) (l := y.waiting)] at h
    exact (h.flush Token.isOperator_of_mem_takeWhile_settles).push (Token.waits_iff.2 (.inr ⟨op, ht⟩))
  | opening =>
    rw [absorb_of_opening ht]
    exact h.push (Token.waits_iff.2 (.inl ht))
  | closing =>
    have hops := Token.isOperator_of_mem_takeWhile_opens h.waits
    rw [absorb_of_closing ht]
    rw [← List.takeWhile_append_dropWhile (p := (!Token.opens ·)) (l := y.waiting)] at h
    exact (h.flush hops).close ht Token.opens_of_mem_head?_dropWhile
  | invalid c =>
    rw [complaint?, ht] at hcomplaint
    contradiction

theorem keeps_accounts (ts : List Token) (stop : Nat) : Keeps ts stop Accounts where
  absorb _ hcomplaint h :=
    ⟨h.counted.absorb _, balance_concat h.closed (h.unclosed_pos hcomplaint), holds_absorb h.holds hcomplaint⟩
  pass h := ⟨⟨h.counted.opened, h.counted.operators, h.counted.numbers⟩, h.closed, h.holds⟩
  drain := by
    intro rest t y hwaiting hopens h
    have hholds := h.holds
    rw [hwaiting, ← List.singleton_append] at hholds
    have hop : t.isOperator = true := Token.isOperator_of_waits (hholds.waits t (by simp)) hopens
    have hopened := h.counted.opened
    rw [hwaiting, List.countP_cons_of_neg (by simp [hopens])] at hopened
    exact ⟨⟨hopened, h.counted.operators, h.counted.numbers⟩, h.closed,
      hholds.flush (by simpa using hop)⟩

-- The tokens behind a yard are those that end by its position.
theorem keeps_position {ts : List Token} {stop : Nat} (order : InOrder 0 stop ts) :
    Keeps ts stop fun before y => ts.filter (fun t => t.stop ≤ y.pos) = before where
  absorb := by
    intro before after t y hts hcomplaint _
    rw [pos_absorb hcomplaint]
    rw [hts] at order ⊢
    exact order.filter_stop_le
  pass := by
    intro y _
    rw [List.filter_eq_self]
    intro t ht
    have hstop := order.stop_le t ht
    exact decide_eq_true (Nat.le_trans hstop (Nat.le_max_right _ _))
  drain _ _ h := h

end Yard

/-! ## 3. The converter -/

/-- The converter `c` keeps account of the tokens `seen`: its output shows their numbers in order, the output
and the stack together show their operators, for each opening parenthesis that is not closed there is one on
the stack, both counts are right, and no parenthesis is in the output. -/
structure Converter.Conserves (c : Converter) (seen : List Token) : Prop where
  numbers_output : c.output.toList.filter (fun entry => (Operator.ofSymbol? entry).isNone) =
    (seen.filter Token.isNumber).map Token.text
  operators_perm : ((c.output.toList ++ c.stack.entries).filter
    fun entry => (Operator.ofSymbol? entry).isSome).Perm ((seen.filter Token.isOperator).map Token.text)
  openings : c.stack.entries.count opening + seen.countP Token.closes = seen.countP Token.opens
  operators : c.operators = seen.countP Token.isOperator
  numbers : c.numbers = seen.countP Token.isNumber
  opening_notMem : opening ∉ c.output.toList
  closing_notMem : closing ∉ c.output.toList

namespace Token

theorem isSome_ofSymbol?_text {t : Token} (h : (t.isNumber = true ∧ t.Numeric) ∨ t.waits = true) :
    (Operator.ofSymbol? t.text).isSome = t.isOperator := by
  rcases h with ⟨hnumber, hnumeric⟩ | hwaits
  · obtain ⟨d, _, run, ht⟩ := id hnumeric
    rw [hnumeric.ofSymbol?_text, isOperator, ht]
    rfl
  · rw [text, isOperator]
    rcases waits_iff.1 hwaits with ht | ⟨op, ht⟩
    · rw [ht]
      rfl
    · rw [ht, Lexeme.text, Operator.ofSymbol?_symbol]
      rfl

theorem isNumber_eq_not_isOperator {t : Token} (h : t.isNumber = true ∨ t.isOperator = true) :
    t.isNumber = !t.isOperator := by
  unfold isNumber isOperator at h ⊢
  cases ht : t.lexeme <;> simp [ht] at h ⊢

theorem count_opening_map_text {ts : List Token} (h : ∀ t ∈ ts, t.waits = true) :
    (ts.map text).count ReversePolish.opening = ts.countP opens := by
  rw [List.count, List.countP_map]
  apply List.countP_congr
  intro t ht
  have htext := congrArg not (text_bne_opening (h t ht))
  simp only [bne, Bool.not_not] at htext
  rw [Function.comp_apply, htext]

-- Neither a number nor an operator is written like a parenthesis.
theorem text_ne_of_shown {t : Token} (h : (t.isNumber = true ∧ t.Numeric) ∨ t.isOperator = true) {c : Char}
    (hdigit : c ∉ digits) (hop : Operator.ofChar? c = none) : t.text ≠ String.singleton c := by
  rcases h with ⟨-, hnumeric⟩ | hoperator
  · exact hnumeric.text_ne_singleton hdigit
  · obtain ⟨op, ht⟩ := isOperator_iff.1 hoperator
    intro htext
    rw [text, ht] at htext
    have hchars := congrArg String.toList htext
    simp only [Lexeme.text, Operator.symbol, String.toList_singleton, List.cons.injEq, and_true] at hchars
    rw [← hchars, Operator.ofChar?_char] at hop
    contradiction

end Token

theorem Converter.conserves_holding (s : String) {seen : List Token} {y : Yard} (es : List Event)
    (h : Yard.Accounts seen y) (hnumeric : ∀ t ∈ seen, t.isNumber = true → t.Numeric) :
    Conserves ((ofString s).start.holding y es) seen := by
  have houtput : ((ofString s).start.holding y es).output.toList = y.output.map Token.text :=
    toList_output_holding
  have hstack : ((ofString s).start.holding y es).stack.entries = y.waiting.map Token.text := rfl
  -- a number that is shown was read before
  have hshown : ∀ t ∈ y.output, (t.isNumber = true ∧ t.Numeric) ∨ t.isOperator = true := by
    intro t ht
    rcases h.holds.shown t ht with hnumber | hoperator
    · have hmem : t ∈ y.output.filter Token.isNumber := List.mem_filter.2 ⟨ht, hnumber⟩
      rw [h.holds.numbers] at hmem
      exact .inl ⟨hnumber, hnumeric t (List.mem_filter.1 hmem).1 hnumber⟩
    · exact .inr hoperator
  have hsymbol : ∀ t ∈ y.output ++ y.waiting, (Operator.ofSymbol? t.text).isSome = t.isOperator := by
    intro t ht
    apply Token.isSome_ofSymbol?_text
    rcases List.mem_append.1 ht with ht | ht
    · exact (hshown t ht).imp_right fun hoperator => by rw [Token.waits, hoperator, Bool.or_true]
    · exact .inr (h.holds.waits t ht)
  have hparen : ∀ c : Char, c ∉ digits → Operator.ofChar? c = none →
      String.singleton c ∉ y.output.map Token.text := by
    intro c hdigit hop hmem
    obtain ⟨t, ht, htext⟩ := List.mem_map.1 hmem
    exact Token.text_ne_of_shown (hshown t ht) hdigit hop htext
  refine ⟨?_, ?_, ?_, h.counted.operators, h.counted.numbers, ?_, ?_⟩
  · rw [houtput, List.filter_map, ← h.holds.numbers]
    congr 1
    apply List.filter_congr
    intro t ht
    rw [Function.comp_apply, Token.isNumber_eq_not_isOperator (h.holds.shown t ht),
      ← hsymbol t (List.mem_append_left _ ht), Option.not_isSome]
  · rw [houtput, hstack, ← List.map_append, List.filter_map]
    refine List.Perm.map _ (List.Perm.trans ?_ h.holds.operators)
    exact .of_eq (List.filter_congr hsymbol)
  · rw [hstack, Token.count_opening_map_text h.holds.waits, h.counted.opened]
    exact h.closed
  · rw [houtput]
    exact hparen openingChar (by decide) (by decide)
  · rw [houtput]
    exact hparen closingChar (by decide) (by decide)

/-! ## 4. Texts -/

/-- Stopped at any event of a text, accepted or not, the converter is as the event shows it and keeps account
of the tokens of the text that end by its position. -/
theorem run_conserves (s : String) :
    ∃ ts, (∀ us, Reading 0 s.toList us ↔ us = ts) ∧
      ∀ n < (events s).length, ∀ reason, ∃ c e,
        run s (some (Observer.stopAt (n + 1) reason)) = .error (.stopped reason) c ∧
        c.log.toList = (events s).take (n + 1) ∧ (events s)[n]? = some e ∧
        e.output = c.output.toList ∧ e.stack = c.stack.entries ∧
        c.Conserves (ts.filter fun t => t.stop ≤ c.pos) := by
  obtain ⟨ts, reading⟩ : ∃ ts, Reading 0 s.toList ts := ⟨_, reading_scan _ _⟩
  refine ⟨ts, reading_iff reading, ?_⟩
  intro n hn reason
  have order : InOrder 0 s.toList.length ts := by simpa using reading.inOrder
  have hn' : n < (Yard.empty.convert ts s.toList.length).moves.length := by
    rwa [events_eq reading, List.length_map] at hn
  obtain ⟨m, hm⟩ : ∃ m, (Yard.empty.convert ts s.toList.length).moves[n]? = some m :=
    ⟨_, List.getElem?_eq_getElem hn'⟩
  have haccounts := (Yard.keeps_accounts ts s.toList.length).move_convert
    ⟨Yard.counted_empty, rfl, .nil⟩ hm
  have hposition := (Yard.keeps_position order).move_convert (y := Yard.empty)
    (List.filter_eq_nil_iff.2 fun t ht => by
      have := order.lt_stop t ht
      simp [Yard.empty]
      omega) hm
  refine ⟨_, m.event [], run_stopAt reading hm reason, rfl, ?_, ?_, rfl, ?_⟩
  · rw [events_eq reading, List.getElem?_map, hm]
    rfl
  · rw [Converter.toList_output_holding]
    rfl
  · show Converter.Conserves _ (ts.filter fun t => t.stop ≤ m.after.pos)
    rw [hposition]
    exact Converter.conserves_holding s _ haccounts
      fun t ht => reading.numeric t (List.mem_of_mem_take ht)

/-- Behind the power inside a group, in a text whose last parenthesis closes nothing. -/
theorem run_conserves_power :
    6 < (events "8 * (7 - 6 ^ 5)) 4").length ∧
      ∃ ts, (∀ us, Reading 0 "8 * (7 - 6 ^ 5)) 4".toList us ↔ us = ts) ∧ ∃ c,
        run "8 * (7 - 6 ^ 5)) 4" (some (Observer.stopAt 7 "halt")) = .error (.stopped "halt") c ∧
        c.output.toList = ["8", "7", "6"] ∧ c.stack.entries = ["^", "-", "(", "*"] ∧
        c.Conserves (ts.filter fun t => t.stop ≤ c.pos) := by
  have hevent : (events "8 * (7 - 6 ^ 5)) 4")[6]? =
      some ⟨11, "^", .operator, ["8", "7", "6"], ["^", "-", "(", "*"]⟩ := by
    decide +kernel
  have hlength : 6 < (events "8 * (7 - 6 ^ 5)) 4").length := (List.getElem?_eq_some_iff.1 hevent).1
  obtain ⟨ts, reading, h⟩ := run_conserves "8 * (7 - 6 ^ 5)) 4"
  obtain ⟨c, e, hrun, -, he, houtput, hstack, hconserves⟩ := h 6 hlength "halt"
  rw [hevent] at he
  cases he
  exact ⟨hlength, ts, reading, c, hrun, houtput.symm, hstack.symm, hconserves⟩

end ReversePolish
