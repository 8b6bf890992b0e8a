import ReversePolish.Proofs.Events
import ReversePolish.Proofs.Outcome
import Mathlib.Data.List.Chain
import Mathlib.Data.List.Infix

/-!
# Evaluation — a grammatical text has a value

Whether the tokens of a text form an expression shows in neighbouring tokens and in the nesting of the
parentheses.  If they do, the text is converted, and a stack machine evaluates the output to one value.
-/

namespace ReversePolish

/-! ## 1. The stack machine -/

section

variable {α : Type} (value : String → α) (apply : Operator → α → α → α)

/-- One step of the machine: an operator replaces its right operand on top of the stack and its left one below
by its result, and any other entry pushes its value.  There is no result if an operand is missing. -/
def evalStep (values : List α) (entry : String) : Option (List α) :=
  match Operator.ofSymbol? entry with
  | none => some (value entry :: values)
  | some op =>
    match values with
    | right :: left :: below => some (apply op left right :: below)
    | _ => none

/-- The values that are left when the machine has gone through all entries from the left. -/
def evaluate (entries : List String) : Option (List α) :=
  entries.foldlM (evalStep value apply) []

theorem evaluate_append (entries more : List String) :
    evaluate value apply (entries ++ more) =
      (evaluate value apply entries).bind fun values => more.foldlM (evalStep value apply) values :=
  List.foldlM_append

theorem evalStep_number {t : Token} (h : t.Numeric) (values : List α) :
    evalStep value apply values t.text = some (value t.text :: values) := by
  rw [evalStep, h.ofSymbol?_text]

theorem exists_evalStep_operator {t : Token} (h : t.isOperator = true) {values : List α}
    (hlength : 2 ≤ values.length) :
    ∃ rest, evalStep value apply values t.text = some rest ∧ rest.length + 1 = values.length := by
  obtain ⟨op, ht⟩ := Token.isOperator_iff.1 h
  match values, hlength with
  | right :: left :: below, _ =>
    refine ⟨apply op left right :: below, ?_, rfl⟩
    rw [evalStep, Token.text, ht, Lexeme.text, Operator.ofSymbol?_symbol]

-- Each operator takes one value away.
theorem exists_foldlM_operators {flushed : List Token} (h : ∀ t ∈ flushed, t.isOperator = true)
    {values : List α} (hlength : flushed.length < values.length) :
    ∃ rest, (flushed.map Token.text).foldlM (evalStep value apply) values = some rest ∧
      rest.length + flushed.length = values.length := by
  induction flushed generalizing values with
  | nil => exact ⟨values, rfl, rfl⟩
  | cons t flushed ih =>
    rw [List.length_cons] at hlength
    obtain ⟨next, hnext, hnextlength⟩ :=
      exists_evalStep_operator value apply (h t (by simp)) (show 2 ≤ values.length by omega)
    have hlt : flushed.length < next.length := by omega
    obtain ⟨rest, hrest, hrestlength⟩ := ih (fun u hu => h u (by simp [hu])) hlt
    refine ⟨rest, ?_, by rw [List.length_cons]; omega⟩
    rw [List.map_cons, List.foldlM_cons, hnext]
    exact hrest

end

/-! ## 2. Grammatical tokens -/

def Token.isInvalid (t : Token) : Bool :=
  match t.lexeme with
  | .invalid _ => true
  | _ => false

/-- The tokens `ts` form an expression as far as neighbours and parentheses show: none is invalid, no group is
closed before it is opened and each one is closed, an operand begins at the start and behind an operator or
an opening parenthesis, and behind the end of an operand stands an operator, a closing parenthesis or
nothing. -/
structure Grammatical (ts : List Token) : Prop where
  valid : ∀ t ∈ ts, t.isInvalid = false
  nonempty : ts ≠ []
  nested : ∀ before ∈ ts.inits, before.countP Token.closes ≤ before.countP Token.opens
  closed : ts.countP Token.closes = ts.countP Token.opens
  first : ∀ t ∈ ts.head?, t.isNumber = true ∨ t.opens = true
  next : ts.IsChain fun t u =>
    (t.isOperator = true ∨ t.opens = true → u.isNumber = true ∨ u.opens = true) ∧
      (t.isNumber = true ∨ t.closes = true → u.isOperator = true ∨ u.closes = true)
  last : ∀ t ∈ ts.getLast?, t.isNumber = true ∨ t.closes = true

instance (ts : List Token) : Decidable (Grammatical ts) :=
  decidable_of_iff (_ ∧ _ ∧ _ ∧ _ ∧ _ ∧ _ ∧ _)
    ⟨fun ⟨valid, nonempty, nested, closed, first, next, last⟩ =>
      ⟨valid, nonempty, nested, closed, first, next, last⟩,
    fun ⟨valid, nonempty, nested, closed, first, next, last⟩ =>
      ⟨valid, nonempty, nested, closed, first, next, last⟩⟩

/-- The number of operands that end with the last token: one or none. -/
def operandsAt (ts : List Token) : Nat :=
  if ts.getLast?.any fun t => t.isNumber || t.closes then 1 else 0

theorem operandsAt_concat (ts : List Token) (t : Token) :
    operandsAt (ts ++ [t]) = if t.isNumber || t.closes then 1 else 0 := by
  rw [operandsAt, List.getLast?_concat, Option.any_some]

theorem balance_of_nested {ts : List Token}
    (h : ∀ before ∈ ts.inits, before.countP Token.closes ≤ before.countP Token.opens) :
    unclosed ts + ts.countP Token.closes = ts.countP Token.opens := by
  induction ts using List.reverseRecOn with
  | nil => rfl
  | append_singleton ts t ih =>
    have hts := ih fun before hbefore =>
      h before ((List.mem_inits _ _).2 (((List.mem_inits _ _).1 hbefore).trans (List.prefix_append _ _)))
    apply balance_concat hts
    intro ht
    have hcloses := h (ts ++ [t]) ((List.mem_inits _ _).2 (List.prefix_refl _))
    rw [List.countP_append, List.countP_append, List.countP_singleton, List.countP_singleton, Token.closes,
      Token.opens, ht] at hcloses
    simp at hcloses
    omega

namespace Grammatical

variable {ts before after : List Token} {t : Token}

theorem nested_before (h : Grammatical ts) (hts : ts = before ++ after) :
    before.countP Token.closes ≤ before.countP Token.opens :=
  h.nested before ((List.mem_inits _ _).2 ⟨after, hts.symm⟩)

theorem balance_before (h : Grammatical ts) (hts : ts = before ++ after) :
    unclosed before + before.countP Token.closes = before.countP Token.opens := by
  apply balance_of_nested
  intro front hfront
  obtain ⟨back, rfl⟩ := (List.mem_inits _ _).1 hfront
  exact h.nested_before (hts.trans (List.append_assoc _ _ _))

theorem orderly (h : Grammatical ts) : Orderly ts := by
  intro before t after hts
  rintro (⟨c, hc⟩ | ⟨ht, hzero⟩)
  · have hvalid := h.valid t (by simp [hts])
    rw [Token.isInvalid, hc] at hvalid
    contradiction
  · -- up to a closing parenthesis that closes nothing there is one too many
    have hbefore := h.balance_before hts
    have hcloses := h.nested_before (show ts = (before ++ [t]) ++ after by rw [hts, List.append_cons])
    rw [List.countP_append, List.countP_append, List.countP_singleton, List.countP_singleton, Token.closes,
      Token.opens, ht] at hcloses
    simp at hcloses
    omega

theorem unclosed_eq_zero (h : Grammatical ts) : unclosed ts = 0 := by
  have hbalance := h.balance_before (List.append_nil ts).symm
  have hclosed := h.closed
  omega

-- No operand has ended where one begins, and one has ended everywhere else.
theorem operandsAt_before (h : Grammatical ts) (hts : ts = before ++ t :: after) :
    operandsAt before = if t.isNumber || t.opens then 0 else 1 := by
  rcases List.eq_nil_or_concat before with rfl | ⟨front, u, rfl⟩
  · have hfirst := h.first t (by rw [hts]; rfl)
    rw [if_pos (by simpa using hfirst)]
    rfl
  · rw [List.concat_eq_append] at hts ⊢
    have hnext := h.next
    rw [hts, List.append_assoc, List.singleton_append] at hnext
    obtain ⟨hoperand, hoperator⟩ := (List.isChain_append_cons_cons.1 hnext).2.1
    rw [operandsAt_concat]
    by_cases hends : u.isNumber = true ∨ u.closes = true
    · have hnot : ¬ (t.isNumber || t.opens) = true := by
        have ht := hoperator hends
        unfold Token.isOperator Token.closes at ht
        unfold Token.isNumber Token.opens
        cases hlexeme : t.lexeme <;> simp [hlexeme] at ht ⊢
      rw [if_pos (by simpa using hends), if_neg hnot]
    · -- what ends no operand and is valid calls for one
      have hcalls : u.isOperator = true ∨ u.opens = true := by
        have hvalid := h.valid u (by simp [hts])
        unfold Token.isInvalid at hvalid
        unfold Token.isNumber Token.closes at hends
        unfold Token.isOperator Token.opens
        cases hlexeme : u.lexeme <;> simp [hlexeme] at hends hvalid ⊢
      rw [if_neg (by simpa using hends), if_pos (by simpa using hoperand hcalls)]

theorem operandsAt_eq_one (h : Grammatical ts) : operandsAt ts = 1 := by
  have hlast := h.last (ts.getLast h.nonempty) (List.getLast_mem_getLast? h.nonempty)
  rw [operandsAt, List.getLast?_eq_some_getLast h.nonempty, Option.any_some, if_pos]
  simpa using hlast

end Grammatical

/-! ## 3. The value of the output -/

section

variable {α : Type} {value : String → α} {apply : Operator → α → α → α}
  {output waiting flushed rest : List Token} {t : Token} {n : Nat}

/-- The machine goes through the tokens of the output and leaves one value for each operator that waits, and
`n` more. -/
def Leaves (value : String → α) (apply : Operator → α → α → α) (output waiting : List Token) (n : Nat) :
    Prop :=
  ∃ values, evaluate value apply (output.map Token.text) = some values ∧
    values.length = waiting.countP Token.isOperator + n

-- Behind an operand there is one value more than operators wait, so none of these lacks an operand.
theorem Leaves.flush (h : Leaves value apply output (flushed ++ rest) 1)
    (hops : ∀ t ∈ flushed, t.isOperator = true) : Leaves value apply (output ++ flushed) rest 1 := by
  obtain ⟨values, hvalues, hlength⟩ := h
  have hcount : flushed.countP Token.isOperator = flushed.length := List.countP_eq_length.2 hops
  rw [List.countP_append, hcount] at hlength
  have hlt : flushed.length < values.length := by omega
  obtain ⟨left, hleft, hleftlength⟩ := exists_foldlM_operators value apply hops hlt
  refine ⟨left, ?_, by omega⟩
  rw [List.map_append, evaluate_append, hvalues]
  exact hleft

theorem Leaves.number (h : Leaves value apply output waiting 0) (ht : t.Numeric) :
    Leaves value apply (output ++ [t]) waiting 1 := by
  obtain ⟨values, hvalues, hlength⟩ := h
  refine ⟨value t.text :: values, ?_, by rw [List.length_cons, hlength]⟩
  rw [List.map_append, evaluate_append, hvalues, Option.bind_some, List.map_singleton, List.foldlM_cons,
    evalStep_number value apply ht]
  rfl

-- An operator that is pushed claims a value.
theorem Leaves.operator (h : Leaves value apply output waiting 1) (ht : t.isOperator = true) :
    Leaves value apply output (t :: waiting) 0 := by
  obtain ⟨values, hvalues, hlength⟩ := h
  exact ⟨values, hvalues, by rw [List.countP_cons_of_pos ht]; omega⟩

theorem Leaves.opening (h : Leaves value apply output waiting n) (ht : t.isOperator = false) :
    Leaves value apply output (t :: waiting) n := by
  obtain ⟨values, hvalues, hlength⟩ := h
  exact ⟨values, hvalues, by rw [List.countP_cons_of_neg (by simp [ht])]; exact hlength⟩

theorem Leaves.closing (h : Leaves value apply output waiting n)
    (hopens : ∀ o ∈ waiting.head?, o.opens = true) : Leaves value apply output waiting.tail n := by
  cases waiting with
  | nil => exact h
  | cons o rest =>
    obtain ⟨values, hvalues, hlength⟩ := h
    have ho := Token.opens_iff.1 (hopens o rfl)
    rw [List.countP_cons_of_neg (by simp [Token.isOperator, ho])] at hlength
    exact ⟨values, hvalues, hlength⟩

end

namespace Yard

variable {α : Type} {value : String → α} {apply : Operator → α → α → α} {ts : List Token} {stop : Nat}

/-- Behind the tokens `before` the output of `y` leaves one value for each operator that waits, and one more
behind the end of an operand. -/
structure Evaluates (value : String → α) (apply : Operator → α → α → α) (before : List Token) (y : Yard) :
    Prop where
  leaves : Leaves value apply y.output y.waiting (operandsAt before)
  waits : ∀ w ∈ y.waiting, w.waits = true
  counts : y.numbers = y.operators + operandsAt before

theorem evaluates_empty (value : String → α) (apply : Operator → α → α → α) :
    Evaluates value apply [] empty :=
  ⟨⟨[], rfl, rfl⟩, by simp [empty], rfl⟩

theorem Evaluates.absorb {before : List Token} {y : Yard} {t : Token} (hy : Evaluates value apply before y)
    (hcomplaint : y.complaint? t = none) (hnumeric : t.isNumber = true → t.Numeric)
    (hbefore : operandsAt before = if t.isNumber || t.opens then 0 else 1) :
    Evaluates value apply (before ++ [t]) (y.absorb t) := by
  obtain ⟨hleaves, hwaits, hcounts⟩ := hy
  have hwaits' := waits_absorb t hwaits
  have hafter := operandsAt_concat before t
  unfold Token.isNumber Token.opens at hbefore
  unfold Token.isNumber Token.closes at hafter
  cases ht : t.lexeme with
  | number literal =>
    have hnone : operandsAt before = 0 := by simpa [ht] using hbefore
    have hone : operandsAt (before ++ [t]) = 1 := by simpa [ht] using hafter
    rw [absorb_of_number ht] at hwaits' ⊢
    rw [hnone] at hleaves hcounts
    refine ⟨?_, hwaits', ?_⟩
    · rw [hone]
      exact hleaves.number (hnumeric (by rw [Token.isNumber, ht]))
    · rw [hone, hcounts]
  | operator op =>
    have hone : operandsAt before = 1 := by simpa [ht] using hbefore
    have hnone : operandsAt (before ++ [t]) = 0 := by simpa [ht] using hafter
    rw [absorb_of_operator ht] at hwaits' ⊢
    rw [hone] at hcounts
    rw [hone, ← List.takeWhile_append_dropWhile (p := Token.settles op) (l := y.waiting)] at hleaves
    refine ⟨?_, hwaits', ?_⟩
    · rw [hnone]
      exact (hleaves.flush Token.isOperator_of_mem_takeWhile_settles).operator
        (Token.isOperator_iff.2 ⟨op, ht⟩)
    · rw [hnone, hcounts]
  | opening =>
    have hnone : operandsAt before = 0 := by simpa [ht] using hbefore
    have hnone' : operandsAt (before ++ [t]) = 0 := by simpa [ht] using hafter
    rw [absorb_of_opening ht] at hwaits' ⊢
    rw [hnone] at hleaves hcounts
    refine ⟨?_, hwaits', ?_⟩
    · rw [hnone']
      exact hleaves.opening (by rw [Token.isOperator, ht])
    · rw [hnone', hcounts]
  | closing =>
    have hone : operandsAt before = 1 := by simpa [ht] using hbefore
    have hone' : operandsAt (before ++ [t]) = 1 := by simpa [ht] using hafter
    have hops := Token.isOperator_of_mem_takeWhile_opens hwaits
    rw [absorb_of_closing ht] at hwaits' ⊢
    rw [hone] at hcounts
    rw [hone, ← List.takeWhile_append_dropWhile (p := (!Token.opens ·)) (l := y.waiting)] at hleaves
    refine ⟨?_, hwaits', ?_⟩
    · rw [hone']
      exact (hleaves.flush hops).closing Token.opens_of_mem_head?_dropWhile
    · rw [hone', hcounts]
  | invalid c =>
    rw [complaint?, ht] at hcomplaint
    contradiction

theorem keeps_evaluates (h : Grammatical ts) (hnumeric : ∀ t ∈ ts, t.isNumber = true → t.Numeric)
    (stop : Nat) : Keeps ts stop (Evaluates value apply) where
  absorb hts hcomplaint hy := hy.absorb hcomplaint (hnumeric _ (by simp [hts])) (h.operandsAt_before hts)
  pass h := ⟨h.leaves, h.waits, h.counts⟩
  drain := by
    intro rest t y hwaiting hopens hy
    obtain ⟨hleaves, hwaits, hcounts⟩ := hy
    rw [hwaiting] at hwaits
    rw [hwaiting, h.operandsAt_eq_one] at hleaves
    have hop := Token.isOperator_of_waits (hwaits t (by simp)) hopens
    refine ⟨?_, fun w hw => hwaits w (by simp [hw]), hcounts⟩
    rw [h.operandsAt_eq_one]
    rw [← List.singleton_append] at hleaves
    exact hleaves.flush (by simpa using hop)

-- Behind all tokens the operators that still wait follow the output, and one value is left.
theorem exists_evaluate_convert (h : Grammatical ts) (hnumeric : ∀ t ∈ ts, t.isNumber = true → t.Numeric)
    (hfault : (empty.convert ts stop).fault = none) (value : String → α) (apply : Operator → α → α → α) :
    ∃ v, evaluate value apply ((empty.convert ts stop).last.output.map Token.text) = some [v] := by
  obtain ⟨habsorbed, hopens, houtput⟩ := output_convert hfault
  obtain ⟨hleaves, hwaits, -⟩ := (keeps_evaluates h hnumeric stop).last_absorbAll
    (List.nil_append ts).symm (evaluates_empty value apply) habsorbed
  rw [h.operandsAt_eq_one, ← List.append_nil (empty.absorbAll ts).last.waiting] at hleaves
  rw [List.any_eq_false] at hopens
  obtain ⟨values, hvalues, hlength⟩ := hleaves.flush fun w hw =>
    Token.isOperator_of_waits (hwaits w hw) (by simpa using hopens w hw)
  obtain ⟨v, rfl⟩ := List.length_eq_one_iff.1 hlength
  exact ⟨v, by rw [houtput]; exact hvalues⟩

theorem countP_isNumber_of_grammatical (h : Grammatical ts)
    (hnumeric : ∀ t ∈ ts, t.isNumber = true → t.Numeric) :
    ts.countP Token.isNumber = ts.countP Token.isOperator + 1 := by
  obtain ⟨habsorbed, hcounted⟩ := absorbAll_of_orderly ts counted_empty h.orderly
  obtain ⟨-, -, hcounts⟩ := (keeps_evaluates h hnumeric 0).last_absorbAll
    (List.nil_append ts).symm (evaluates_empty id fun _ left _ => left) habsorbed
  rw [List.nil_append] at hcounted
  rw [h.operandsAt_eq_one] at hcounts
  rw [← hcounted.numbers, hcounts, hcounted.operators]

end Yard

/-! ## 4. Texts -/

end ReversePolish
