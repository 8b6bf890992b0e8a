import ReversePolish.Converter.Basic
import ReversePolish.Proofs.Reading

/-!
# Yard — a conversion of tokens without bounds

The yard does to tokens what a converter does to strings: numbers go to the output, operators and opening
parentheses wait.  It has no capacity and keeps the tokens with their places.
-/

namespace ReversePolish

/-! ## 1. Tokens -/

/-- The string that stands for a lexeme in the output and on the stack. -/
def Lexeme.text : Lexeme → String
  | number literal => String.ofList literal
  | operator op => op.symbol
  | opening => ReversePolish.opening
  | closing => ReversePolish.closing
  | invalid c => String.singleton c

def Lexeme.action : Lexeme → Action
  | number _ => .number
  | operator _ => .operator
  | opening => .opening
  | closing => .closing
  | invalid c => .other (String.singleton c)

namespace Token

def text (t : Token) : String := t.lexeme.text

def opens (t : Token) : Bool :=
  match t.lexeme with
  | .opening => true
  | _ => false

def closes (t : Token) : Bool :=
  match t.lexeme with
  | .closing => true
  | _ => false

def isNumber (t : Token) : Bool :=
  match t.lexeme with
  | .number _ => true
  | _ => false

def isOperator (t : Token) : Bool :=
  match t.lexeme with
  | .operator _ => true
  | _ => false

def waits (t : Token) : Bool := t.opens || t.isOperator

def settles (incoming : Operator) (t : Token) : Bool :=
  match t.lexeme with
  | .operator op => op.appliesBefore incoming
  | _ => false

theorem toList_text (t : Token) : t.text.toList = t.lexeme.chars := by
  unfold text
  cases t.lexeme <;> simp [Lexeme.text, Lexeme.chars, Operator.symbol, ReversePolish.opening,
    ReversePolish.closing]

theorem length_text (t : Token) : t.text.length = t.lexeme.chars.length := by
  rw [← String.length_toList, toList_text]

theorem opens_iff {t : Token} : t.opens = true ↔ t.lexeme = .opening := by
  unfold opens
  cases t.lexeme <;> simp

theorem isOperator_iff {t : Token} : t.isOperator = true ↔ ∃ op, t.lexeme = .operator op := by
  unfold isOperator
  cases t.lexeme <;> simp

theorem waits_iff {t : Token} :
    t.waits = true ↔ t.lexeme = .opening ∨ ∃ op, t.lexeme = .operator op := by
  rw [waits, Bool.or_eq_true, opens_iff, isOperator_iff]

theorem settles_of_operator {t : Token} {op : Operator} (h : t.lexeme = .operator op)
    (incoming : Operator) : t.settles incoming = op.appliesBefore incoming := by
  rw [settles, h]

theorem isOperator_of_settles {op : Operator} {t : Token} (h : t.settles op = true) :
    t.isOperator = true := by
  unfold settles at h
  unfold isOperator
  cases ht : t.lexeme <;> simp [ht] at h ⊢

theorem isOperator_of_waits {t : Token} (h : t.waits = true) (hopens : t.opens = false) :
    t.isOperator = true := by
  rwa [waits, hopens, Bool.false_or] at h

theorem opens_eq_false_of_isOperator {t : Token} (h : t.isOperator = true) : t.opens = false := by
  obtain ⟨op, hop⟩ := isOperator_iff.1 h
  rw [opens, hop]

theorem settles_of_opens {t : Token} (h : t.opens = true) (op : Operator) : t.settles op = false := by
  rw [settles, opens_iff.1 h]

-- What an operator or the end of a group sends to the output are operators.
theorem isOperator_of_mem_takeWhile_settles {op : Operator} {ts : List Token} :
    ∀ t ∈ ts.takeWhile (settles op), t.isOperator = true :=
  fun _ ht => isOperator_of_settles (List.mem_takeWhile_imp ht)

theorem isOperator_of_mem_takeWhile_opens {ts : List Token} (h : ∀ t ∈ ts, t.waits = true) :
    ∀ t ∈ ts.takeWhile (!·.opens), t.isOperator = true := by
  intro t ht
  have hopens := List.mem_takeWhile_imp (p := (!opens ·)) ht
  exact isOperator_of_waits (h t ((List.takeWhile_sublist _).mem ht)) (by simpa using hopens)

theorem opens_of_mem_head?_dropWhile {ts : List Token} :
    ∀ t ∈ (ts.dropWhile (!·.opens)).head?, t.opens = true := by
  intro t ht
  have hnot := List.head?_dropWhile_not (!opens ·) ts
  rw [Option.mem_def.1 ht] at hnot
  simpa using hnot

-- Where a group is open, its opening parenthesis follows what waits in it.
theorem exists_dropWhile_opens {ts : List Token} (h : ts.any opens = true) :
    ∃ o rest, ts.dropWhile (!·.opens) = o :: rest ∧ o.opens = true := by
  obtain ⟨w, hw, hopens⟩ := List.any_eq_true.1 h
  have hne : ts.dropWhile (!·.opens) ≠ [] := by
    intro hnil
    simpa [hopens] using List.dropWhile_eq_nil_iff.1 hnil w hw
  obtain ⟨o, rest, hdrop⟩ := List.exists_cons_of_ne_nil hne
  exact ⟨o, rest, hdrop, opens_of_mem_head?_dropWhile o (by rw [hdrop]; rfl)⟩

theorem takeWhile_of_not_opens {ts : List Token} (h : ts.any opens = false) :
    ts.takeWhile (!·.opens) = ts ∧ ts.dropWhile (!·.opens) = [] := by
  have hall : ∀ t ∈ ts, (!t.opens) = true := by simpa using h
  exact ⟨List.takeWhile_eq_self_iff.2 hall, List.dropWhile_eq_nil_iff.2 hall⟩

theorem settles_text {t : Token} (h : t.waits = true) (op : Operator) :
    Converter.settles op t.text = t.settles op := by
  rw [Converter.settles, settles, text]
  rcases waits_iff.1 h with ht | ⟨o, ht⟩
  · rw [ht]
    rfl
  · rw [ht, Lexeme.text, Operator.ofSymbol?_symbol]

theorem text_bne_opening {t : Token} (h : t.waits = true) : (t.text != opening) = !t.opens := by
  rw [opens, text]
  rcases waits_iff.1 h with ht | ⟨o, ht⟩
  · rw [ht]
    rfl
  · rw [ht, Lexeme.text]
    cases o <;> decide

theorem isKnown_text {t : Token} (h : t.waits = true) : Converter.isKnown t.text = true := by
  rw [Converter.isKnown, text]
  rcases waits_iff.1 h with ht | ⟨o, ht⟩
  · rw [ht]
    rfl
  · rw [ht, Lexeme.text, Operator.ofSymbol?_symbol]
    simp

-- Every known string is the text of a token that may wait.
theorem exists_text_eq {s : String} (h : Converter.isKnown s = true) :
    ∃ t : Token, t.waits = true ∧ t.text = s := by
  simp only [Converter.isKnown, Bool.or_eq_true, beq_iff_eq, Option.isSome_iff_exists] at h
  rcases h with rfl | ⟨op, hop⟩
  · exact ⟨⟨0, .opening⟩, rfl, rfl⟩
  · exact ⟨⟨0, .operator op⟩, rfl, Operator.ofSymbol?_eq_some_iff.1 hop⟩

theorem exists_map_text_eq {entries : List String}
    (h : ∀ s ∈ entries, Converter.isKnown s = true) :
    ∃ ts : List Token, (∀ t ∈ ts, t.waits = true) ∧ ts.map text = entries := by
  induction entries with
  | nil => exact ⟨[], by simp, rfl⟩
  | cons s rest ih =>
    obtain ⟨t, ht, rfl⟩ := exists_text_eq (h s (by simp))
    obtain ⟨ts, hts, rfl⟩ := ih fun s' hs' => h s' (by simp [hs'])
    refine ⟨t :: ts, ?_, rfl⟩
    intro u hu
    rcases List.mem_cons.1 hu with rfl | hu
    · exact ht
    · exact hts u hu

/-- A number that begins with a digit, as every number does that is read in a text. -/
def Numeric (t : Token) : Prop := ∃ d ∈ digits, ∃ run, t.lexeme = .number (d :: run)

theorem Numeric.text_ne_singleton {t : Token} (h : t.Numeric) {c : Char} (hc : c ∉ digits) :
    t.text ≠ String.singleton c := by
  obtain ⟨d, hd, run, ht⟩ := h
  intro htext
  have hchars := congrArg String.toList htext
  rw [text, ht] at hchars
  simp only [Lexeme.text, String.toList_ofList, String.toList_singleton, List.cons.injEq] at hchars
  exact hc (hchars.1 ▸ hd)

theorem Numeric.ofSymbol?_text {t : Token} (h : t.Numeric) : Operator.ofSymbol? t.text = none := by
  rw [Operator.ofSymbol?, List.find?_eq_none]
  intro op _ hop
  exact h.text_ne_singleton op.char_notMem_digits (of_decide_eq_true hop).symm

end Token

theorem Reading.numeric {pos : Nat} {cs : List Char} {ts : List Token} (h : Reading pos cs ts) :
    ∀ t ∈ ts, t.isNumber = true → t.Numeric := by
  induction h with
  | done => simp
  | space _ ih => exact ih
  | @number pos d run rest ts hd _ _ _ ih =>
    intro t ht hnumber
    rcases List.mem_cons.1 ht with rfl | ht
    · exact ⟨d, hd, run, rfl⟩
    · exact ih t ht hnumber
  | operator _ _ ih | opening _ ih | closing _ ih | invalid _ _ _ _ ih =>
    intro t ht hnumber
    rcases List.mem_cons.1 ht with rfl | ht
    · contradiction
    · exact ih t ht hnumber

/-! ## 2. One token -/

/-- The tokens of a conversion: the position, what went to the output, what waits (the last one first), and
how many operators and numbers were counted. -/
structure Yard where
  pos : Nat
  output : List Token
  waiting : List Token
  operators : Nat
  numbers : Nat
  deriving DecidableEq

namespace Yard

/-- The yard behind the token `t`, also where `t` ends the conversion. -/
def absorb (y : Yard) (t : Token) : Yard :=
  match t.lexeme with
  | .number _ => { y with pos := t.stop, output := y.output ++ [t], numbers := y.numbers + 1 }
  | .operator op =>
    { y with
      pos := t.stop
      output := y.output ++ y.waiting.takeWhile (Token.settles op)
      waiting := t :: y.waiting.dropWhile (Token.settles op)
      operators := y.operators + 1 }
  | .opening => { y with pos := t.stop, waiting := t :: y.waiting }
  | .closing =>
    { y with
      pos := t.stop
      output := y.output ++ y.waiting.takeWhile (!·.opens)
      waiting := (y.waiting.dropWhile (!·.opens)).tail }
  | .invalid _ => { y with pos := t.start }

/-- Why the token `t` ends the conversion, if it does. -/
def complaint? (y : Yard) (t : Token) : Option Diagnostic :=
  match t.lexeme with
  | .closing => if y.waiting.any Token.opens then none else some (.mismatchedClosing t.start t.stop)
  | .invalid c => some (.invalidToken c t.start)
  | _ => none

-- A token ends the conversion because it is invalid or because it closes nothing.
theorem complaint?_eq_some {y : Yard} {t : Token} {d : Diagnostic} (h : y.complaint? t = some d) :
    (∃ c, t.lexeme = .invalid c ∧ d = .invalidToken c t.start) ∨
      (t.lexeme = .closing ∧ y.waiting.any Token.opens = false ∧ d = .mismatchedClosing t.start t.stop) := by
  unfold complaint? at h
  cases ht : t.lexeme with
  | closing =>
    right
    cases hany : y.waiting.any Token.opens with
    | true => simp [ht, hany] at h
    | false => exact ⟨rfl, rfl, by simpa [ht, hany] using h.symm⟩
  | invalid c => exact .inl ⟨c, rfl, by simpa [ht] using h.symm⟩
  | number literal => simp [ht] at h
  | operator op => simp [ht] at h
  | opening => simp [ht] at h

theorem absorb_of_number {y : Yard} {t : Token} {literal : List Char} (h : t.lexeme = .number literal) :
    y.absorb t = { y with
      pos := t.stop, output := y.output ++ [t], numbers := y.numbers + 1 } := by
  rw [absorb, h]

theorem absorb_of_operator {y : Yard} {t : Token} {op : Operator} (h : t.lexeme = .operator op) :
    y.absorb t = { y with
      pos := t.stop
      output := y.output ++ y.waiting.takeWhile (Token.settles op)
      waiting := t :: y.waiting.dropWhile (Token.settles op)
      operators := y.operators + 1 } := by
  rw [absorb, h]

theorem absorb_of_opening {y : Yard} {t : Token} (h : t.lexeme = .opening) :
    y.absorb t = { y with pos := t.stop, waiting := t :: y.waiting } := by
  rw [absorb, h]

theorem absorb_of_closing {y : Yard} {t : Token} (h : t.lexeme = .closing) :
    y.absorb t = { y with
      pos := t.stop
      output := y.output ++ y.waiting.takeWhile (!·.opens)
      waiting := (y.waiting.dropWhile (!·.opens)).tail } := by
  rw [absorb, h]

theorem absorb_of_invalid {y : Yard} {t : Token} {c : Char} (h : t.lexeme = .invalid c) :
    y.absorb t = { y with pos := t.start } := by
  rw [absorb, h]

def size (y : Yard) : Nat := y.output.length + y.waiting.length

theorem length_takeWhile_add_length_dropWhile (p : Token → Bool) (ts : List Token) :
    (ts.takeWhile p).length + (ts.dropWhile p).length = ts.length := by
  rw [← List.length_append, List.takeWhile_append_dropWhile]

theorem size_absorb_le (y : Yard) (t : Token) : (y.absorb t).size ≤ y.size + 1 := by
  unfold size
  cases ht : t.lexeme with
  | number literal =>
    rw [absorb_of_number ht]
    simp only [List.length_append, List.length_singleton]
    omega
  | operator op =>
    have := length_takeWhile_add_length_dropWhile (Token.settles op) y.waiting
    rw [absorb_of_operator ht]
    simp only [List.length_append, List.length_cons]
    omega
  | opening =>
    rw [absorb_of_opening ht]
    simp only [List.length_cons]
    omega
  | closing =>
    have := length_takeWhile_add_length_dropWhile (!·.opens) y.waiting
    rw [absorb_of_closing ht]
    simp only [List.length_append, List.length_tail]
    omega
  | invalid c =>
    rw [absorb_of_invalid ht]
    exact Nat.le_succ _

theorem waits_absorb {y : Yard} (t : Token) (h : ∀ w ∈ y.waiting, w.waits = true) :
    ∀ w ∈ (y.absorb t).waiting, w.waits = true := by
  intro w hw
  cases ht : t.lexeme with
  | number literal =>
    rw [absorb_of_number ht] at hw
    exact h w hw
  | operator op =>
    rw [absorb_of_operator ht] at hw
    rcases List.mem_cons.1 hw with rfl | hw
    · exact Token.waits_iff.2 (.inr ⟨op, ht⟩)
    · exact h w ((List.dropWhile_sublist _).mem hw)
  | opening =>
    rw [absorb_of_opening ht] at hw
    rcases List.mem_cons.1 hw with rfl | hw
    · exact Token.waits_iff.2 (.inl ht)
    · exact h w hw
  | closing =>
    rw [absorb_of_closing ht] at hw
    exact h w ((List.dropWhile_sublist _).mem (List.mem_of_mem_tail hw))
  | invalid c =>
    rw [absorb_of_invalid ht] at hw
    exact h w hw

theorem pos_absorb {y : Yard} {t : Token} (h : y.complaint? t = none) : (y.absorb t).pos = t.stop := by
  unfold complaint? at h
  rw [absorb]
  cases ht : t.lexeme <;> simp [ht] at h ⊢

end Yard

/-! ## 3. Courses -/

/-- A finished move: where and with which token, what was done, and the yard after it. -/
structure Move where
  position : Nat
  token : Token
  action : Action
  after : Yard

/-- The event that reports a move, when the output held the strings `before` at the start. -/
def Move.event (before : List String) (m : Move) : Event :=
  ⟨m.position, m.token.text, m.action, before ++ m.after.output.map Token.text,
    m.after.waiting.map Token.text⟩

/-- A part of a conversion: its finished moves, the yard at the end and what is wrong with the text. -/
structure Course where
  moves : List Move
  last : Yard
  fault : Option Diagnostic

namespace Course

def cons (m : Move) (r : Course) : Course := { r with moves := m :: r.moves }

/-- Goes on where a course ends without a fault. -/
def andThen (r : Course) (next : Yard → Course) : Course :=
  match r.fault with
  | some _ => r
  | none => { next r.last with moves := r.moves ++ (next r.last).moves }

@[simp] theorem fault_cons (m : Move) (r : Course) : (r.cons m).fault = r.fault := rfl

theorem andThen_of_fault {r : Course} {d : Diagnostic} (h : r.fault = some d)
    (next : Yard → Course) : r.andThen next = r := by
  rw [andThen, h]

theorem andThen_of_no_fault {r : Course} (h : r.fault = none) (next : Yard → Course) :
    r.andThen next = { next r.last with moves := r.moves ++ (next r.last).moves } := by
  rw [andThen, h]

theorem cons_andThen (m : Move) (r : Course) (next : Yard → Course) :
    (r.cons m).andThen next = (r.andThen next).cons m := by
  cases h : r.fault with
  | none => rw [andThen_of_no_fault h, andThen_of_no_fault (by rw [fault_cons, h])]; rfl
  | some d => rw [andThen_of_fault h, andThen_of_fault (by rw [fault_cons, h])]

theorem andThen_assoc (r : Course) (next last : Yard → Course) :
    (r.andThen next).andThen last = r.andThen fun z => (next z).andThen last := by
  cases h : r.fault with
  | none =>
    rw [andThen_of_no_fault h, andThen_of_no_fault h]
    cases hnext : (next r.last).fault with
    | none =>
      rw [andThen_of_no_fault (by exact hnext), andThen_of_no_fault hnext]
      simp only [List.append_assoc]
    | some d => rw [andThen_of_fault (by exact hnext), andThen_of_fault hnext]
  | some d => rw [andThen_of_fault h, andThen_of_fault h, andThen_of_fault h]

end Course

namespace Yard

/-- Absorbs tokens up to the first that ends the conversion. -/
def absorbAll (y : Yard) : List Token → Course
  | [] => ⟨[], y, none⟩
  | t :: ts =>
    match y.complaint? t with
    | some d => ⟨[], y.absorb t, some d⟩
    | none => ((y.absorb t).absorbAll ts).cons ⟨t.start, t, t.lexeme.action, y.absorb t⟩

/-- Moves the tokens that still wait to the output, as long as they are operators. -/
def drain (y : Yard) (stop : Nat) : List Token → Course
  | [] => ⟨[], { y with waiting := [] }, none⟩
  | t :: rest =>
    if t.opens then ⟨[], { y with waiting := rest }, some (.unmatchedOpening stop)⟩
    else
      (drain { y with output := y.output ++ [t], waiting := rest } stop rest).cons
        ⟨stop, t, .drain, { y with output := y.output ++ [t], waiting := rest }⟩

def conclude (y : Yard) (stop : Nat) : Course :=
  if y.numbers ≤ y.operators then
    ⟨[], y, some (.invalidOperatorCount y.operators y.numbers stop)⟩
  else y.drain stop y.waiting

def pass (y : Yard) (stop : Nat) : Yard := { y with pos := max y.pos stop }

/-- The conversion of the tokens `ts` of a text of length `stop`. -/
def convert (y : Yard) (ts : List Token) (stop : Nat) : Course :=
  (y.absorbAll ts).andThen fun z => (z.pass stop).conclude stop

-- Tokens that do not end the conversion are absorbed one after the other.
theorem absorbAll_cons {y : Yard} {t : Token} {ts : List Token} (h : (y.absorbAll (t :: ts)).fault = none) :
    y.complaint? t = none ∧ ((y.absorb t).absorbAll ts).fault = none ∧
      y.absorbAll (t :: ts) = ((y.absorb t).absorbAll ts).cons ⟨t.start, t, t.lexeme.action, y.absorb t⟩ := by
  rw [absorbAll] at h ⊢
  cases hcomplaint : y.complaint? t with
  | none =>
    rw [hcomplaint] at h
    exact ⟨rfl, h, rfl⟩
  | some d =>
    rw [hcomplaint] at h
    contradiction

theorem drain_fault (y : Yard) (stop : Nat) (ts : List Token) :
    (y.drain stop ts).fault =
      if ts.any Token.opens then some (.unmatchedOpening stop) else none := by
  induction ts generalizing y with
  | nil => rfl
  | cons t ts ih =>
    rw [drain, List.any_cons]
    cases t.opens with
    | true => rfl
    | false =>
      rw [if_neg (by simp), Course.fault_cons, ih, Bool.false_or]

theorem conclude_fault (y : Yard) (stop : Nat) :
    (y.conclude stop).fault =
      if y.numbers ≤ y.operators then some (.invalidOperatorCount y.operators y.numbers stop)
      else if y.waiting.any Token.opens then some (.unmatchedOpening stop)
      else none := by
  rw [conclude]
  split
  · rfl
  · exact drain_fault y stop y.waiting

theorem conclude_eq_some {y : Yard} {stop : Nat} {d : Diagnostic} (h : (y.conclude stop).fault = some d) :
    (y.numbers ≤ y.operators ∧ d = .invalidOperatorCount y.operators y.numbers stop) ∨
      (y.operators < y.numbers ∧ y.waiting.any Token.opens = true ∧ d = .unmatchedOpening stop) := by
  rw [conclude_fault] at h
  split at h
  · rename_i hcounts
    exact .inl ⟨hcounts, (Option.some.inj h).symm⟩
  · rename_i hcounts
    split at h
    · rename_i hopens
      exact .inr ⟨Nat.lt_of_not_le hcounts, hopens, (Option.some.inj h).symm⟩
    · contradiction

-- The drain stops at the innermost group that is open, and takes its opening away.
theorem last_drain_eq (y : Yard) (stop : Nat) (ts : List Token) :
    (y.drain stop ts).last = { y with
      output := y.output ++ ts.takeWhile (!·.opens)
      waiting := (ts.dropWhile (!·.opens)).tail } := by
  induction ts generalizing y with
  | nil => rw [List.takeWhile_nil, List.append_nil]; rfl
  | cons t ts ih =>
    rw [drain]
    cases h : t.opens with
    | true =>
      rw [List.takeWhile_cons_of_neg (by simp [h]), List.dropWhile_cons_of_neg (by simp [h]), List.append_nil]
      rfl
    | false =>
      rw [List.takeWhile_cons_of_pos (by simp [h]), List.dropWhile_cons_of_pos (by simp [h]),
        List.append_cons y.output t (ts.takeWhile (!·.opens))]
      exact ih _

theorem map_token_drain (y : Yard) (stop : Nat) (ts : List Token) :
    (y.drain stop ts).moves.map Move.token = ts.takeWhile (!·.opens) := by
  induction ts generalizing y with
  | nil => rfl
  | cons t ts ih =>
    rw [drain]
    cases h : t.opens with
    | true => rw [List.takeWhile_cons_of_neg (by simp [h])]; rfl
    | false => rw [List.takeWhile_cons_of_pos (by simp [h])]; exact congrArg (t :: ·) (ih _)

theorem last_drain {y : Yard} {stop : Nat} {ts : List Token} (h : ts.any Token.opens = false) :
    (y.drain stop ts).last = { y with output := y.output ++ ts, waiting := [] } := by
  obtain ⟨htake, hdrop⟩ := Token.takeWhile_of_not_opens h
  rw [last_drain_eq, htake, hdrop, List.tail_nil]

-- Without a fault, all tokens are absorbed and those that still wait follow behind the output.
theorem output_convert {y : Yard} {ts : List Token} {stop : Nat} (h : (y.convert ts stop).fault = none) :
    (y.absorbAll ts).fault = none ∧ (y.absorbAll ts).last.waiting.any Token.opens = false ∧
      (y.convert ts stop).last.output = (y.absorbAll ts).last.output ++ (y.absorbAll ts).last.waiting := by
  unfold convert at h ⊢
  cases hfault : (y.absorbAll ts).fault with
  | some d =>
    rw [Course.andThen_of_fault hfault, hfault] at h
    contradiction
  | none =>
    rw [Course.andThen_of_no_fault hfault] at h ⊢
    dsimp only at h ⊢
    unfold conclude at h ⊢
    split at h
    · contradiction
    · rename_i hcounts
      rw [drain_fault] at h
      -- an opening on the stack would be the fault of the drain
      have hopens : (y.absorbAll ts).last.waiting.any Token.opens = false := by
        rw [← Bool.not_eq_true]
        intro hany
        rw [if_pos (by exact hany)] at h
        contradiction
      rw [if_neg hcounts]
      exact ⟨rfl, hopens, congrArg output (last_drain hopens)⟩

theorem size_pass (y : Yard) (stop : Nat) : (y.pass stop).size = y.size := rfl

theorem waits_absorbAll {y : Yard} (ts : List Token) (h : ∀ w ∈ y.waiting, w.waits = true) :
    ∀ w ∈ (y.absorbAll ts).last.waiting, w.waits = true := by
  induction ts generalizing y with
  | nil => exact h
  | cons t ts ih =>
    rw [absorbAll]
    cases y.complaint? t with
    | none => exact ih (waits_absorb t h)
    | some d => exact waits_absorb t h

-- A yard of no more tokens than characters read stays so, together with `k` more.
theorem size_absorbAll_le {y : Yard} {ts : List Token} {p q k : Nat} (order : InOrder p q ts)
    (h : k + y.size ≤ p) (hfault : (y.absorbAll ts).fault = none) :
    k + (y.absorbAll ts).last.size ≤ q := by
  induction ts generalizing y p with
  | nil => exact Nat.le_trans h order
  | cons t ts ih =>
    obtain ⟨hstart, hstop, horder⟩ := order
    obtain ⟨-, hrest, hcons⟩ := absorbAll_cons hfault
    -- a token covers a character at least and adds one token at most
    have hgrow := y.size_absorb_le t
    rw [hcons]
    exact ih horder (by omega) hrest

theorem absorbAll_append (y : Yard) (ts us : List Token) :
    y.absorbAll (ts ++ us) = (y.absorbAll ts).andThen fun z => z.absorbAll us := by
  induction ts generalizing y with
  | nil => rfl
  | cons t ts ih =>
    rw [List.cons_append, absorbAll, absorbAll]
    cases y.complaint? t with
    | none => simp only [ih, Course.cons_andThen]
    | some d => rfl

theorem convert_append (y : Yard) (ts us : List Token) (stop : Nat) :
    y.convert (ts ++ us) stop = (y.absorbAll ts).andThen fun z => z.convert us stop := by
  rw [convert, absorbAll_append, Course.andThen_assoc]
  rfl

end Yard

end ReversePolish
