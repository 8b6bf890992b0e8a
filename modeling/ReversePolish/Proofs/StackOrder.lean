import ReversePolish.Proofs.Events
import Mathlib.Data.List.Chain

/-!
# StackOrder — precedences rise towards the top of the stack

An operator waits only on entries that do not apply before it.  So in one group the precedences rise from
each operator to the next one on top of it, and stay the same only below an operator that groups to the
right.  This is why an operator that comes may stop at the first entry that does not apply before it.
-/

namespace ReversePolish

/-! ## 1. Neighbours -/

/-- The operator `upper` may wait on top of `lower`: it binds tighter, or as tightly while it groups to the
right. -/
def Operator.RestsOn (upper lower : Operator) : Prop :=
  lower.fixity.precedence < upper.fixity.precedence ∨
    (lower.fixity.precedence = upper.fixity.precedence ∧ upper.fixity.associativity = .right)

theorem Operator.restsOn_of_not_appliesBefore {upper lower : Operator}
    (h : lower.appliesBefore upper = false) : upper.RestsOn lower := by
  rw [← Bool.not_eq_true, appliesBefore_iff, not_or, not_and] at h
  obtain ⟨hle, hleft⟩ := h
  by_cases hlt : lower.fixity.precedence < upper.fixity.precedence
  · exact .inl hlt
  · have heq : upper.fixity.precedence = lower.fixity.precedence := by omega
    right
    refine ⟨heq.symm, ?_⟩
    cases hassoc : upper.fixity.associativity with
    | left => exact absurd hassoc (hleft heq)
    | right => rfl

theorem Token.lexeme_of_text_eq_symbol {t : Token} {op : Operator} (h : t.waits = true)
    (htext : t.text = op.symbol) : t.lexeme = .operator op := by
  rw [text] at htext
  rcases waits_iff.1 h with ht | ⟨a, ht⟩
  · rw [ht] at htext
    exact absurd htext (by cases op <;> decide)
  · rw [ht] at htext
    rw [ht, Operator.symbol_injective htext]

/-! ## 2. The stack of a yard -/

namespace Yard

/-- What waits are operators and opening parentheses, and no entry applies before the operator right on top
of it. -/
structure Layered (y : Yard) : Prop where
  waits : ∀ w ∈ y.waiting, w.waits = true
  holds : y.waiting.IsChain fun upper lower =>
    ∀ op, upper.lexeme = .operator op → lower.settles op = false

theorem layered_empty : Layered empty := ⟨by simp [empty], .nil⟩

theorem Layered.suffix {y z : Yard} (h : Layered y) (hsuffix : z.waiting <:+ y.waiting) : Layered z where
  waits w hw := h.waits w (hsuffix.mem hw)
  holds := h.holds.suffix hsuffix

theorem Layered.absorb {y : Yard} (h : Layered y) (t : Token) : Layered (y.absorb t) := by
  refine ⟨waits_absorb t h.waits, ?_⟩
  cases ht : t.lexeme with
  | number literal =>
    rw [absorb_of_number ht]
    exact h.holds
  | operator op =>
    -- the entries that apply before the operator are gone
    rw [absorb_of_operator ht]
    refine (h.holds.suffix (List.dropWhile_suffix _)).cons ?_
    intro lower hlower a ha
    rw [ht] at ha
    cases ha
    have hnot := List.head?_dropWhile_not (Token.settles op) y.waiting
    rw [Option.mem_def.1 hlower] at hnot
    exact hnot
  | opening =>
    rw [absorb_of_opening ht]
    refine h.holds.cons ?_
    intro lower _ a ha
    rw [ht] at ha
    contradiction
  | closing =>
    rw [absorb_of_closing ht]
    exact h.holds.suffix ((List.tail_suffix _).trans (List.dropWhile_suffix _))
  | invalid c =>
    rw [absorb_of_invalid ht]
    exact h.holds

theorem keeps_layered (ts : List Token) (stop : Nat) : Keeps ts stop fun _ y => y.Layered where
  absorb _ _ h := h.absorb _
  pass h := ⟨h.waits, h.holds⟩
  drain hwaiting _ h := h.suffix (by rw [hwaiting]; exact List.suffix_cons _ _)

-- On the stack as an event shows it, each operator rests on the one below.
theorem Layered.isChain_map_text {y : Yard} (h : Layered y) :
    (y.waiting.map Token.text).IsChain fun upper lower =>
      ∀ a b : Operator, upper = a.symbol → lower = b.symbol → a.RestsOn b := by
  rw [List.isChain_map]
  refine List.IsChain.imp_of_mem_imp ?_ h.holds
  intro upper lower hupper hlower hholds a b ha hb
  have hsettles := hholds a (Token.lexeme_of_text_eq_symbol (h.waits upper hupper) ha)
  rw [Token.settles_of_operator (Token.lexeme_of_text_eq_symbol (h.waits lower hlower) hb)] at hsettles
  exact Operator.restsOn_of_not_appliesBefore hsettles

end Yard

/-! ## 3. Texts -/

/-- At every event of a text, accepted or not, and whoever observes, the stack holds opening parentheses and
operators only, and in every run of operators on it, top first, each one rests on the next. -/
theorem stack_ascends (s : String) (watch : Option Observer) :
    ∀ e ∈ events s watch,
      (∀ entry ∈ e.stack, entry = opening ∨ ∃ op : Operator, entry = op.symbol) ∧
      ∀ ops : List Operator, ops.map Operator.symbol <:+: e.stack → ops.IsChain Operator.RestsOn := by
  intro e he
  obtain ⟨ts, reading⟩ : ∃ ts, Reading 0 s.toList ts := ⟨_, reading_scan _ _⟩
  obtain ⟨k, hk⟩ := exists_take_events reading watch
  rw [hk, events_eq reading] at he
  obtain ⟨m, hm, rfl⟩ := List.mem_map.1 (List.mem_of_mem_take he)
  obtain ⟨n, hn⟩ := List.mem_iff_getElem?.1 hm
  have layered := (Yard.keeps_layered ts s.toList.length).move_convert Yard.layered_empty hn
  constructor
  · intro entry hentry
    obtain ⟨w, hw, rfl⟩ := List.mem_map.1 hentry
    rw [Token.text]
    rcases Token.waits_iff.1 (layered.waits w hw) with hopening | ⟨op, hop⟩
    · exact .inl (by rw [hopening]; rfl)
    · exact .inr ⟨op, by rw [hop]; rfl⟩
  · intro ops hops
    have hchain := layered.isChain_map_text.infix hops
    rw [List.isChain_map] at hchain
    exact hchain.imp fun a b h => h a b rfl rfl

/-- Behind the second power, in a text whose last parenthesis closes nothing. -/
theorem stack_ascends_power :
    ∃ e ∈ events "1 + (2 ^ 3 ^ 4))", e.stack = ["^", "^", "(", "+"] ∧
      (∀ entry ∈ e.stack, entry = opening ∨ ∃ op : Operator, entry = op.symbol) ∧
      ∀ ops : List Operator, ops.map Operator.symbol <:+: e.stack → ops.IsChain Operator.RestsOn := by
  have hevent : (events "1 + (2 ^ 3 ^ 4))")[6]? =
      some ⟨11, "^", .operator, ["1", "2", "3"], ["^", "^", "(", "+"]⟩ := by
    decide +kernel
  have he := List.mem_of_getElem? hevent
  exact ⟨_, he, rfl, stack_ascends _ _ _ he⟩

end ReversePolish
