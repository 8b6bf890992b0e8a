import ReversePolish.Proofs.Refinement
import Mathlib.Data.List.Induction

/-!
# Outcome — what decides over a text

The tokens alone decide: the first token at fault, else the numbers of operators and numbers, else the
groups that are still open at the end.  The yard finds the same by what waits in it.
-/

namespace ReversePolish

/-! ## 1. Faults of a list of tokens -/

/-- One token more: how many groups are open behind it, if `n` are open before it. -/
def Token.openAfter (n : Nat) (t : Token) : Nat :=
  match t.lexeme with
  | .opening => n + 1
  | .closing => n - 1
  | _ => n

/-- The number of groups that are open behind tokens; a closing parenthesis behind which none is open
closes nothing. -/
def unclosed (ts : List Token) : Nat := ts.foldl Token.openAfter 0

/-- Behind the tokens `before`, the token `t` is at fault: it is invalid or closes nothing. -/
def Offends (before : List Token) (t : Token) : Prop :=
  (∃ c, t.lexeme = .invalid c) ∨ (t.lexeme = .closing ∧ unclosed before = 0)

def Orderly (ts : List Token) : Prop :=
  ∀ before t after, ts = before ++ t :: after → ¬ Offends before t

/-- The token `t` behind `before` is the first one at fault. -/
def FirstOffence (ts before : List Token) (t : Token) : Prop :=
  Orderly before ∧ Offends before t ∧ ∃ after, ts = before ++ t :: after

theorem unclosed_concat (ts : List Token) (t : Token) :
    unclosed (ts ++ [t]) = t.openAfter (unclosed ts) := by
  rw [unclosed, List.foldl_append]
  rfl

-- One token more, which closes something if it closes at all, keeps the balance of parentheses.
theorem balance_concat {ts : List Token} {t : Token}
    (h : unclosed ts + ts.countP Token.closes = ts.countP Token.opens)
    (ht : t.lexeme = .closing → 0 < unclosed ts) :
    unclosed (ts ++ [t]) + (ts ++ [t]).countP Token.closes = (ts ++ [t]).countP Token.opens := by
  rw [unclosed_concat, List.countP_append, List.countP_append, List.countP_singleton,
    List.countP_singleton, Token.openAfter, Token.closes, Token.opens]
  cases hlexeme : t.lexeme with
  | closing =>
    have hopen := ht hlexeme
    simp
    omega
  | opening =>
    simp
    omega
  | number literal => simpa using h
  | operator op => simpa using h
  | invalid c => simpa using h

theorem orderly_nil : Orderly [] := by
  intro before t after h
  simp at h

theorem Orderly.concat {ts : List Token} {t : Token} (h : Orderly ts) (ht : ¬ Offends ts t) :
    Orderly (ts ++ [t]) := by
  intro before u after hu
  rcases List.eq_nil_or_concat after with rfl | ⟨after', w, rfl⟩
  · obtain ⟨rfl, hlast⟩ := List.append_inj' hu rfl
    cases hlast
    exact ht
  · rw [List.concat_eq_append, ← List.cons_append, ← List.append_assoc] at hu
    obtain ⟨rfl, -⟩ := List.append_inj' hu rfl
    exact h before u after' rfl

-- Either no token is at fault, or there is a first one.
theorem orderly_or_exists (ts : List Token) : Orderly ts ∨ ∃ before t, FirstOffence ts before t := by
  -- the fault of a token lies in those before it, so tokens are added at the end
  induction ts using List.reverseRecOn with
  | nil => exact .inl orderly_nil
  | append_singleton ts t ih =>
    rcases ih with h | ⟨before, u, hbefore, hu, after, rfl⟩
    · by_cases ht : Offends ts t
      · exact .inr ⟨ts, t, h, ht, [], rfl⟩
      · exact .inl (h.concat ht)
    · exact .inr ⟨before, u, hbefore, hu, after ++ [t], by simp⟩

/-! ## 2. What the yard knows of the tokens behind it -/

namespace Yard

/-- The yard `y` has counted the tokens `seen`: those that wait for their group to be closed, the operators
and the numbers. -/
structure Counted (seen : List Token) (y : Yard) : Prop where
  opened : y.waiting.countP Token.opens = unclosed seen
  operators : y.operators = seen.countP Token.isOperator
  numbers : y.numbers = seen.countP Token.isNumber

theorem counted_empty : Counted [] empty := ⟨rfl, rfl, rfl⟩

theorem countP_dropWhile_settles (op : Operator) (ts : List Token) :
    (ts.dropWhile (Token.settles op)).countP Token.opens = ts.countP Token.opens := by
  have htake : (ts.takeWhile (Token.settles op)).countP Token.opens = 0 := by
    rw [List.countP_eq_zero]
    intro t ht
    rw [Token.opens_eq_false_of_isOperator (Token.isOperator_of_settles (List.mem_takeWhile_imp ht))]
    simp
  have hsplit := congrArg (List.countP Token.opens)
    (List.takeWhile_append_dropWhile (p := Token.settles op) (l := ts))
  rwa [List.countP_append, htake, Nat.zero_add] at hsplit

theorem countP_tail_dropWhile_opens (ts : List Token) :
    (ts.dropWhile (!·.opens)).tail.countP Token.opens = ts.countP Token.opens - 1 := by
  induction ts with
  | nil => rfl
  | cons t ts ih =>
    cases h : t.opens with
    | true => simp [h]
    | false => simp [h, ih]

theorem Counted.absorb {seen : List Token} {y : Yard} (h : Counted seen y) (t : Token) :
    Counted (seen ++ [t]) (y.absorb t) := by
  obtain ⟨hopened, hoperators, hnumbers⟩ := h
  unfold Yard.absorb
  constructor
  · rw [unclosed_concat, Token.openAfter, ← hopened]
    cases ht : t.lexeme with
    | operator op =>
      -- an operator sends operators only
      have hopens : t.opens = false := by rw [Token.opens, ht]
      dsimp only
      rw [List.countP_cons_of_neg (by simp [hopens]), countP_dropWhile_settles]
    | opening =>
      have hopens : t.opens = true := by rw [Token.opens, ht]
      exact List.countP_cons_of_pos hopens
    | closing => exact countP_tail_dropWhile_opens y.waiting
    | number literal => rfl
    | invalid c => rfl
  · rw [List.countP_append, List.countP_singleton, ← hoperators, Token.isOperator]
    cases t.lexeme <;> simp
  · rw [List.countP_append, List.countP_singleton, ← hnumbers, Token.isNumber]
    cases t.lexeme <;> simp

theorem Counted.any_opens {seen : List Token} {y : Yard} (h : Counted seen y) :
    y.waiting.any Token.opens = true ↔ 0 < unclosed seen := by
  rw [← h.opened, List.countP_pos_iff, List.any_eq_true]

theorem Counted.complaint?_eq_none {seen : List Token} {y : Yard} {t : Token} (h : Counted seen y)
    (ht : ¬ Offends seen t) : y.complaint? t = none := by
  rw [Offends, not_or] at ht
  unfold complaint?
  cases hlexeme : t.lexeme with
  | closing =>
    have hopen : 0 < unclosed seen := Nat.pos_of_ne_zero fun h0 => ht.2 ⟨hlexeme, h0⟩
    rw [h.any_opens.2 hopen]
    rfl
  | invalid c => exact absurd ⟨c, hlexeme⟩ ht.1
  | number literal => rfl
  | operator op => rfl
  | opening => rfl

-- Orderly tokens are all absorbed.
theorem absorbAll_of_orderly {seen : List Token} (ts : List Token) {y : Yard} (h : Counted seen y)
    (horderly : Orderly (seen ++ ts)) :
    (y.absorbAll ts).fault = none ∧ Counted (seen ++ ts) (y.absorbAll ts).last := by
  induction ts generalizing seen y with
  | nil => rw [List.append_nil]; exact ⟨rfl, h⟩
  | cons t ts ih =>
    have ht := h.complaint?_eq_none (horderly seen t ts rfl)
    rw [List.append_cons] at horderly ⊢
    rw [absorbAll, ht]
    exact ih (h.absorb t) horderly

/-! ## 3. The course of a conversion -/

theorem convert_of_first_offence {ts before : List Token} {t : Token} (h : FirstOffence ts before t)
    (stop : Nat) :
    (empty.convert ts stop).fault = (empty.absorbAll before).last.complaint? t ∧
      ((empty.absorbAll before).last.complaint? t).isSome := by
  obtain ⟨horderly, hoffends, after, rfl⟩ := h
  obtain ⟨hfault, hcounted⟩ := absorbAll_of_orderly before counted_empty horderly
  rw [List.nil_append] at hcounted
  -- what the yard misses on its stack is what the tokens before have not left open
  have hsome : ((empty.absorbAll before).last.complaint? t).isSome := by
    unfold complaint?
    rcases hoffends with ⟨c, hc⟩ | ⟨hclosing, hzero⟩
    · rw [hc]
      rfl
    · have hany : (empty.absorbAll before).last.waiting.any Token.opens = false := by
        rw [Bool.eq_false_iff, Ne, hcounted.any_opens]
        omega
      rw [hclosing, hany]
      rfl
  refine ⟨?_, hsome⟩
  obtain ⟨d, hd⟩ := Option.isSome_iff_exists.1 hsome
  have habsorb : (empty.absorbAll (before ++ t :: after)).fault = some d := by
    rw [absorbAll_append, Course.andThen_of_no_fault hfault, absorbAll, hd]
  rw [convert, Course.andThen_of_fault habsorb, habsorb, hd]

theorem convert_of_orderly {ts : List Token} (h : Orderly ts) (stop : Nat) :
    (empty.convert ts stop).fault =
      if ts.countP Token.isNumber ≤ ts.countP Token.isOperator then
        some (.invalidOperatorCount (ts.countP Token.isOperator) (ts.countP Token.isNumber) stop)
      else if 0 < unclosed ts then some (.unmatchedOpening stop)
      else none := by
  obtain ⟨hfault, hcounted⟩ := absorbAll_of_orderly ts counted_empty h
  rw [List.nil_append] at hcounted
  rw [convert, Course.andThen_of_no_fault hfault]
  dsimp only
  rw [conclude, pass]
  dsimp only
  rw [hcounted.numbers, hcounted.operators]
  split
  · rfl
  · rw [drain_fault]
    simp only [hcounted.any_opens]

theorem convert_fault_eq_none_iff {ts : List Token} (stop : Nat) :
    (empty.convert ts stop).fault = none ↔
      Orderly ts ∧ ts.countP Token.isOperator < ts.countP Token.isNumber ∧ unclosed ts = 0 := by
  rcases orderly_or_exists ts with horderly | ⟨before, t, hfirst⟩
  · rw [convert_of_orderly horderly]
    constructor
    · intro h
      split at h
      · contradiction
      · split at h
        · contradiction
        · exact ⟨horderly, by omega, by omega⟩
    · rintro ⟨-, hcounts, hclosed⟩
      rw [if_neg (by omega), if_neg (by omega)]
  · obtain ⟨hfault, hsome⟩ := convert_of_first_offence hfirst stop
    obtain ⟨-, hoffends, after, rfl⟩ := hfirst
    constructor
    · intro h
      rw [← hfault, h] at hsome
      contradiction
    · rintro ⟨horderly, -⟩
      exact absurd hoffends (horderly before t after rfl)

end Yard

/-! ## 4. Texts -/

theorem toReversePolish_eq_ok_iff {s : String} {ts : List Token} (reading : Reading 0 s.toList ts) :
    (∃ output, toReversePolish s = .ok output) ↔
      Orderly ts ∧ ts.countP Token.isOperator < ts.countP Token.isNumber ∧ unclosed ts = 0 := by
  rw [← Yard.convert_fault_eq_none_iff s.toList.length, toReversePolish_eq reading]
  cases (Yard.empty.convert ts s.toList.length).fault <;> simp

/-- The tokens of a text decide over it.  The first token at fault is reported with its place; if none is,
a text of too few numbers is refused with both counts, and then a text with an open group; every other
text, and no other, is accepted. -/
theorem toReversePolish_outcome (s : String) :
    ∃ ts, (∀ us, Reading 0 s.toList us ↔ us = ts) ∧
      (Orderly ts ∨ ∃ before t, FirstOffence ts before t) ∧
      (∀ before t, FirstOffence ts before t →
        (∀ c, t.lexeme = .invalid c → toReversePolish s = .error (.malformed
          ⟨.invalidToken, "Invalid token " ++ Text.quoted (String.singleton c), t.start, t.start + 1⟩)) ∧
        (t.lexeme = .closing → toReversePolish s = .error (.malformed
          ⟨.mismatchedClosing, "Mismatched parenthesis", t.start, t.start + 1⟩))) ∧
      (Orderly ts → ts.countP Token.isNumber ≤ ts.countP Token.isOperator →
        toReversePolish s = .error (.malformed ⟨.invalidOperatorCount,
          "Invalid operator count: " ++ toString (ts.countP Token.isOperator) ++ ", number count: " ++
            toString (ts.countP Token.isNumber), 0, s.length⟩)) ∧
      (Orderly ts → ts.countP Token.isOperator < ts.countP Token.isNumber → 0 < unclosed ts →
        toReversePolish s = .error (.malformed
          ⟨.unmatchedOpening, "Unmatched open parenthesis", s.length, s.length⟩)) ∧
      ((∃ output, toReversePolish s = .ok output) ↔
        Orderly ts ∧ ts.countP Token.isOperator < ts.countP Token.isNumber ∧ unclosed ts = 0) := by
  obtain ⟨ts, reading⟩ : ∃ ts, Reading 0 s.toList ts := ⟨_, reading_scan _ _⟩
  have hresult := toReversePolish_eq reading
  rw [String.length_toList] at hresult
  refine ⟨ts, reading_iff reading, orderly_or_exists ts, ?_, ?_, ?_, ?_⟩
  · intro before t h
    obtain ⟨hfault, hsome⟩ := Yard.convert_of_first_offence h s.length
    rw [hfault] at hresult
    unfold Yard.complaint? at hresult hsome
    constructor
    · intro c hc
      rw [hc] at hresult
      exact hresult
    · intro hclosing
      rw [hclosing] at hresult hsome
      dsimp only at hresult hsome
      split at hsome
      · contradiction
      · rename_i hany
        -- a closing parenthesis covers one character
        have hstop : t.stop = t.start + 1 := by rw [Token.stop, hclosing]; rfl
        rw [if_neg hany, hstop] at hresult
        exact hresult
  · intro horderly hcounts
    rw [Yard.convert_of_orderly horderly, if_pos hcounts] at hresult
    exact hresult
  · intro horderly hcounts hopen
    rw [Yard.convert_of_orderly horderly, if_neg (by omega), if_pos hopen] at hresult
    exact hresult
  · exact toReversePolish_eq_ok_iff reading

end ReversePolish
