import ReversePolish.Proofs.Refinement
import Mathlib.Data.List.Perm.Basic
import Mathlib.Data.List.Pairwise

/-!
# Release — when a token goes to the output

Tokens are numbered from zero.  A number goes to the output at once; an operator waits for the first later
token of its own group that releases it.  That gives every token a key, and the output is sorted by it.
-/

namespace ReversePolish

/-! ## 1. Keys -/

/-- The token of number `i`; behind the last one stands an opening parenthesis. -/
def tokenAt (ts : List Token) (i : Nat) : Token := ts.getD i ⟨0, .opening⟩

/-- The numbers of the opening parentheses around the token of number `i`, the innermost first. -/
def groupsAt (ts : List Token) : Nat → List Nat
  | 0 => []
  | i + 1 =>
    match (tokenAt ts i).lexeme with
    | .opening => i :: groupsAt ts i
    | .closing => (groupsAt ts i).tail
    | _ => groupsAt ts i

/-- The innermost group that the token of number `i` stands in, or that it closes: the number of its opening
parenthesis, if it is in a group at all. -/
def groupAt (ts : List Token) (i : Nat) : Option Nat := (groupsAt ts i).head?

/-- Whether a later lexeme of its group releases the operator `op`: the end of the group, an operator of lower
precedence, or one of the same precedence that groups to the left. -/
def Lexeme.releases (op : Operator) : Lexeme → Bool
  | .closing => true
  | .operator o => decide (o.fixity.precedence < op.fixity.precedence ∨
      (o.fixity.precedence = op.fixity.precedence ∧ o.fixity.associativity = .left))
  | _ => false

/-- Whether the token of number `j` releases the operator `op` of number `i`. -/
def releases (ts : List Token) (op : Operator) (i j : Nat) : Bool :=
  decide (i < j) && decide (groupAt ts j = groupAt ts i) && (tokenAt ts j).lexeme.releases op

/-- The number of the first token that releases the operator of number `i`, or the number of all tokens; any
other token is its own key. -/
def key (ts : List Token) (i : Nat) : Nat :=
  match (tokenAt ts i).lexeme with
  | .operator op => ((List.range ts.length).find? (releases ts op i)).getD ts.length
  | _ => i

/-- Of two tokens, the one with the smaller key goes first, and of the same key the later one. -/
def Before (ts : List Token) (i j : Nat) : Prop :=
  key ts i < key ts j ∨ (key ts i = key ts j ∧ j < i)

section

variable {ts : List Token} {i j k : Nat} {op : Operator}

theorem releases_operator (op o : Operator) :
    (Lexeme.operator o).releases op = op.appliesBefore o := by
  rw [Bool.eq_iff_iff, Lexeme.releases, decide_eq_true_eq]
  exact Operator.appliesBefore_iff.symm

theorem releases_eq_true_iff : releases ts op i j = true ↔
    i < j ∧ groupAt ts j = groupAt ts i ∧ (tokenAt ts j).lexeme.releases op = true := by
  simp only [releases, Bool.and_eq_true, decide_eq_true_eq, and_assoc]

theorem key_of_not_operator (h : (tokenAt ts i).isOperator = false) : key ts i = i := by
  unfold Token.isOperator at h
  unfold key
  split
  · rename_i op hop
    rw [hop] at h
    contradiction
  · rfl

theorem key_of_released (hop : (tokenAt ts i).lexeme = .operator op)
    (hbefore : ∀ l < k, releases ts op i l = false) (hk : releases ts op i k = true)
    (hlength : k < ts.length) : key ts i = k := by
  have hfind : (List.range ts.length).find? (releases ts op i) = some k := by
    rw [List.find?_range_eq_some]
    exact ⟨hk, List.mem_range.2 hlength, fun l hl => by rw [hbefore l hl]; rfl⟩
  rw [key, hop]
  dsimp only
  rw [hfind]
  rfl

theorem key_of_unreleased (hop : (tokenAt ts i).lexeme = .operator op)
    (hbefore : ∀ l < ts.length, releases ts op i l = false) : key ts i = ts.length := by
  have hfind : (List.range ts.length).find? (releases ts op i) = none := by
    rw [List.find?_range_eq_none]
    exact fun l hl => by rw [hbefore l hl]; rfl
  rw [key, hop]
  dsimp only
  rw [hfind]
  rfl

end

/-! ## 2. The stack -/

/-- The numbers of those tokens among `is` that open a group. -/
def openingsOf (ts : List Token) (is : List Nat) : List Nat := is.filter fun i => (tokenAt ts i).opens

theorem openingsOf_append {ts : List Token} {is js : List Nat}
    (h : ∀ i ∈ is, (tokenAt ts i).isOperator = true) : openingsOf ts (is ++ js) = openingsOf ts js := by
  have hnone : is.filter (fun i => (tokenAt ts i).opens) = [] := by
    rw [List.filter_eq_nil_iff]
    intro i hi
    rw [Token.opens_eq_false_of_isOperator (h i hi)]
    simp
  rw [openingsOf, List.filter_append, hnone, List.nil_append, openingsOf]

theorem openingsOf_cons_of_opens {ts : List Token} {o : Nat} (h : (tokenAt ts o).opens = true)
    (is : List Nat) : openingsOf ts (o :: is) = o :: openingsOf ts is :=
  List.filter_cons_of_pos h

theorem openingsOf_cons_of_isOperator {ts : List Token} {i : Nat}
    (h : (tokenAt ts i).isOperator = true) (is : List Nat) :
    openingsOf ts (i :: is) = openingsOf ts is :=
  List.filter_cons_of_neg (by simp [Token.opens_eq_false_of_isOperator h])

/-- The numbers of those tokens among `is` that are operators. -/
def operatorsOf (ts : List Token) (is : List Nat) : List Nat :=
  is.filter fun i => (tokenAt ts i).isOperator

theorem operatorsOf_append (ts : List Token) (is js : List Nat) :
    operatorsOf ts (is ++ js) = operatorsOf ts is ++ operatorsOf ts js :=
  List.filter_append _ _

theorem operatorsOf_eq_self {ts : List Token} {is : List Nat}
    (h : ∀ i ∈ is, (tokenAt ts i).isOperator = true) : operatorsOf ts is = is :=
  List.filter_eq_self.2 h

theorem operatorsOf_cons_of_isOperator {ts : List Token} {i : Nat}
    (h : (tokenAt ts i).isOperator = true) (is : List Nat) :
    operatorsOf ts (i :: is) = i :: operatorsOf ts is :=
  List.filter_cons_of_pos h

theorem operatorsOf_cons_of_opens {ts : List Token} {o : Nat} (h : (tokenAt ts o).opens = true)
    (is : List Nat) : operatorsOf ts (o :: is) = operatorsOf ts is :=
  List.filter_cons_of_neg (by simp [Token.isOperator, Token.opens_iff.1 h])

/-- `waiting` are numbers of tokens that wait behind the first `k` tokens, top first: later tokens are above
earlier ones, the group of an operator is that of the next opening below it, in one group the precedences
do not fall towards the top, and no token so far has released any of them. -/
structure Stacked (ts : List Token) (k : Nat) (waiting : List Nat) : Prop where
  lt : ∀ i ∈ waiting, i < k
  later : waiting.Pairwise (· > ·)
  waits : ∀ i ∈ waiting, (tokenAt ts i).waits = true
  group : ∀ above i below, waiting = above ++ i :: below → (tokenAt ts i).isOperator = true →
    (openingsOf ts below).head? = groupAt ts i
  tighter : waiting.Pairwise fun i j => ∀ a b, (tokenAt ts i).lexeme = .operator a →
    (tokenAt ts j).lexeme = .operator b → groupAt ts i = groupAt ts j →
    b.fixity.precedence ≤ a.fixity.precedence
  unreleased : ∀ i ∈ waiting, ∀ op, (tokenAt ts i).lexeme = .operator op →
    ∀ j < k, releases ts op i j = false

namespace Stacked

variable {ts : List Token} {k : Nat} {waiting : List Nat}

theorem below {above below : List Nat} (h : Stacked ts k (above ++ below)) : Stacked ts k below where
  lt i hi := h.lt i (List.mem_append_right _ hi)
  later := (List.pairwise_append.1 h.later).2.1
  waits i hi := h.waits i (List.mem_append_right _ hi)
  group above' i below' heq := h.group (above ++ above') i below' (by rw [heq, List.append_assoc])
  tighter := (List.pairwise_append.1 h.tighter).2.1
  unreleased i hi := h.unreleased i (List.mem_append_right _ hi)

-- One token more that releases nothing on the stack.
theorem succ (h : Stacked ts k waiting)
    (hk : ∀ i ∈ waiting, ∀ op, (tokenAt ts i).lexeme = .operator op → releases ts op i k = false) :
    Stacked ts (k + 1) waiting where
  lt i hi := Nat.lt_succ_of_lt (h.lt i hi)
  later := h.later
  waits := h.waits
  group := h.group
  tighter := h.tighter
  unreleased i hi op hop j hj := by
    rcases Nat.lt_succ_iff_lt_or_eq.1 hj with hj | rfl
    · exact h.unreleased i hi op hop j hj
    · exact hk i hi op hop

theorem succ_of_not_releases (h : Stacked ts k waiting)
    (hk : ∀ op, (tokenAt ts k).lexeme.releases op = false) : Stacked ts (k + 1) waiting := by
  apply h.succ
  intro i _ op _
  unfold releases
  rw [hk, Bool.and_false]

-- The token of number `k` is put on top.
theorem push (h : Stacked ts (k + 1) waiting) (hlt : ∀ i ∈ waiting, i < k)
    (hwaits : (tokenAt ts k).waits = true)
    (hgroup : (tokenAt ts k).isOperator = true → (openingsOf ts waiting).head? = groupAt ts k)
    (htighter : ∀ i ∈ waiting, ∀ a b, (tokenAt ts k).lexeme = .operator a →
      (tokenAt ts i).lexeme = .operator b → groupAt ts k = groupAt ts i →
      b.fixity.precedence ≤ a.fixity.precedence) :
    Stacked ts (k + 1) (k :: waiting) where
  lt i hi := by
    rcases List.mem_cons.1 hi with rfl | hi
    · exact Nat.lt_succ_self i
    · exact h.lt i hi
  later := List.pairwise_cons.2 ⟨hlt, h.later⟩
  waits i hi := by
    rcases List.mem_cons.1 hi with rfl | hi
    · exact hwaits
    · exact h.waits i hi
  group above i below heq hop := by
    cases above with
    | nil =>
      obtain ⟨rfl, rfl⟩ := List.cons.inj heq
      exact hgroup hop
    | cons a above =>
      obtain ⟨-, rfl⟩ := List.cons.inj heq
      exact h.group above i below rfl hop
  tighter := List.pairwise_cons.2 ⟨htighter, h.tighter⟩
  unreleased i hi op hop j hj := by
    rcases List.mem_cons.1 hi with rfl | hi
    · -- a token is released by later ones only
      rw [← Bool.not_eq_true, releases_eq_true_iff]
      omega
    · exact h.unreleased i hi op hop j hj

-- The operators above the first opening on the stack are in the group that it opens.
theorem groupAt_eq {above rest : List Nat} (h : Stacked ts k (above ++ rest))
    (habove : ∀ i ∈ above, (tokenAt ts i).isOperator = true) {i : Nat} (hi : i ∈ above) :
    groupAt ts i = (openingsOf ts rest).head? := by
  obtain ⟨front, back, rfl⟩ := List.append_of_mem hi
  -- between `i` and `rest` nothing opens a group
  rw [← h.group front i (back ++ rest) (by simp) (habove i hi), openingsOf_append]
  intro j hj
  exact habove j (by simp [hj])

-- Nothing below an opening on the stack is in the group that it opens.
theorem groupAt_ne {above below : List Nat} {o i : Nat} (h : Stacked ts k (above ++ o :: below))
    (hi : i ∈ below) (hop : (tokenAt ts i).isOperator = true) : groupAt ts i ≠ some o := by
  obtain ⟨front, back, rfl⟩ := List.append_of_mem hi
  rw [← h.group (above ++ o :: front) i back (by simp) hop]
  intro ho
  -- else the opening would stand on the stack twice
  have hmem : o ∈ back := (List.mem_filter.1 (List.mem_of_mem_head? ho)).1
  have hlater := (List.pairwise_cons.1 h.below.later).1 o (by simp [hmem])
  exact Nat.lt_irrefl o hlater

/-! ## 3. What a token releases -/

section

variable {flushed rest : List Nat} {op a : Operator} {i : Nat}

-- An operator releases those on top of the stack that apply before it.
theorem releases_of_settles (h : Stacked ts k (flushed ++ rest))
    (hgroups : openingsOf ts (flushed ++ rest) = groupsAt ts k)
    (hk : (tokenAt ts k).lexeme = .operator op)
    (hflushed : ∀ i ∈ flushed, (tokenAt ts i).settles op = true) (hi : i ∈ flushed)
    (ha : (tokenAt ts i).lexeme = .operator a) : releases ts a i k = true := by
  have hops : ∀ i ∈ flushed, (tokenAt ts i).isOperator = true :=
    fun i hi => Token.isOperator_of_settles (hflushed i hi)
  have hsettles := hflushed i hi
  rw [Token.settles_of_operator ha] at hsettles
  rw [openingsOf_append hops] at hgroups
  rw [releases_eq_true_iff, hk, releases_operator, h.groupAt_eq hops hi, hgroups]
  exact ⟨h.lt i (by simp [hi]), rfl, hsettles⟩

-- An operator releases nothing from the first entry on that does not apply before it: in its group the
-- entries further down bind no tighter than that one.
theorem not_releases_of_settles (h : Stacked ts k (flushed ++ rest))
    (hgroups : openingsOf ts (flushed ++ rest) = groupsAt ts k)
    (hk : (tokenAt ts k).lexeme = .operator op)
    (hflushed : ∀ i ∈ flushed, (tokenAt ts i).settles op = true)
    (hrest : ∀ i ∈ rest.head?, (tokenAt ts i).settles op = false) (hi : i ∈ rest)
    (ha : (tokenAt ts i).lexeme = .operator a) : releases ts a i k = false := by
  have hops : ∀ i ∈ flushed, (tokenAt ts i).isOperator = true :=
    fun i hi => Token.isOperator_of_settles (hflushed i hi)
  rw [openingsOf_append hops] at hgroups
  rw [← Bool.not_eq_true, releases_eq_true_iff, hk, releases_operator]
  rintro ⟨-, hgroup, hbefore⟩
  cases rest with
  | nil => contradiction
  | cons top below =>
    have htop := hrest top rfl
    rw [groupAt, ← hgroups] at hgroup
    rcases Token.waits_iff.1 (h.waits top (by simp)) with hopening | ⟨b, hb⟩
    · -- the group that `top` opens is the one of the operator, and all else is below it
      have hopens : (tokenAt ts top).opens = true := Token.opens_iff.2 hopening
      rw [openingsOf_cons_of_opens hopens] at hgroup
      rcases List.mem_cons.1 hi with rfl | hi
      · rw [ha] at hopening
        contradiction
      · exact h.groupAt_ne hi (Token.isOperator_iff.2 ⟨a, ha⟩) hgroup.symm
    · rw [Token.settles_of_operator hb] at htop
      have hop : (tokenAt ts top).isOperator = true := Token.isOperator_iff.2 ⟨b, hb⟩
      rcases List.mem_cons.1 hi with rfl | hi
      · rw [ha] at hb
        cases hb
        rw [hbefore] at htop
        contradiction
      · have hgroup' : groupAt ts top = groupAt ts i := by
          rw [← hgroup, openingsOf_cons_of_isOperator hop]
          exact (h.group flushed top below rfl hop).symm
        have htight := (List.pairwise_cons.1 h.below.tighter).1 i hi b a hb ha hgroup'
        rw [← Bool.not_eq_true] at htop
        apply htop
        exact Operator.appliesBefore_of_le_left htight hbefore

-- The end of a group releases all operators of it.
theorem releases_of_closing (h : Stacked ts k (flushed ++ rest))
    (hgroups : openingsOf ts (flushed ++ rest) = groupsAt ts k)
    (hk : (tokenAt ts k).lexeme = .closing)
    (hflushed : ∀ i ∈ flushed, (tokenAt ts i).isOperator = true) (hi : i ∈ flushed) :
    releases ts a i k = true := by
  rw [openingsOf_append hflushed] at hgroups
  rw [releases_eq_true_iff, hk, h.groupAt_eq hflushed hi, hgroups]
  exact ⟨h.lt i (by simp [hi]), rfl, rfl⟩

-- The end of a group releases no operator outside of it.
theorem not_releases_of_closing {o : Nat} (h : Stacked ts k (flushed ++ o :: rest))
    (hgroups : openingsOf ts (flushed ++ o :: rest) = groupsAt ts k)
    (hflushed : ∀ i ∈ flushed, (tokenAt ts i).isOperator = true)
    (ho : (tokenAt ts o).opens = true) (hi : i ∈ rest) (ha : (tokenAt ts i).lexeme = .operator a) :
    releases ts a i k = false := by
  rw [openingsOf_append hflushed, openingsOf_cons_of_opens ho] at hgroups
  rw [← Bool.not_eq_true, releases_eq_true_iff, groupAt, ← hgroups]
  rintro ⟨-, hgroup, -⟩
  exact h.groupAt_ne hi (Token.isOperator_iff.2 ⟨a, ha⟩) hgroup.symm

end

theorem key_eq {waiting : List Nat} {i : Nat} {op : Operator} (h : Stacked ts k waiting)
    (hi : i ∈ waiting) (hop : (tokenAt ts i).lexeme = .operator op)
    (hk : releases ts op i k = true) (hlength : k < ts.length) : key ts i = k :=
  key_of_released hop (h.unreleased i hi op hop) hk hlength

end Stacked

/-! ## 4. The output -/

/-- Whether the token of number `i` goes to the output at all. -/
def shown (ts : List Token) (i : Nat) : Bool := (tokenAt ts i).isNumber || (tokenAt ts i).isOperator

/-- The first `k` tokens have become the output `sent` and the stack `waiting`, both by their numbers: the
output is sorted, and all of it was released before the token of number `k`. -/
structure Sorted (ts : List Token) (k : Nat) (sent waiting : List Nat) : Prop where
  stacked : Stacked ts k waiting
  groups : openingsOf ts waiting = groupsAt ts k
  all : (sent ++ operatorsOf ts waiting).Perm ((List.range k).filter (shown ts))
  passed : ∀ i ∈ sent, key ts i < k
  sorted : sent.Pairwise (Before ts)

theorem sorted_zero (ts : List Token) : Sorted ts 0 [] [] where
  stacked := ⟨by simp, .nil, by simp, by simp, .nil, by simp⟩
  groups := rfl
  all := .nil
  passed := by simp
  sorted := .nil

-- What leaves the stack at once has one key and follows the output from the top of the stack on.
theorem pairwise_append_flushed {ts : List Token} {k : Nat} {sent flushed : List Nat}
    (sorted : sent.Pairwise (Before ts)) (passed : ∀ i ∈ sent, key ts i < k)
    (later : flushed.Pairwise (· > ·)) (hkey : ∀ i ∈ flushed, key ts i = k) :
    (sent ++ flushed).Pairwise (Before ts) := by
  rw [List.pairwise_append]
  refine ⟨sorted, ?_, ?_⟩
  · apply later.imp_of_mem
    intro i j hi hj hlt
    exact .inr ⟨(hkey i hi).trans (hkey j hj).symm, hlt⟩
  · intro i hi j hj
    rw [Before, hkey j hj]
    exact .inl (passed i hi)

namespace Sorted

variable {ts : List Token} {k : Nat} {sent waiting flushed rest : List Nat}

theorem range_succ_of_shown (h : shown ts k = true) :
    (List.range (k + 1)).filter (shown ts) = (List.range k).filter (shown ts) ++ [k] := by
  rw [List.range_succ, List.filter_append, List.filter_cons_of_pos h, List.filter_nil]

theorem range_succ_of_not_shown (h : shown ts k = false) :
    (List.range (k + 1)).filter (shown ts) = (List.range k).filter (shown ts) := by
  rw [List.range_succ, List.filter_append, List.filter_cons_of_neg (by simp [h]), List.filter_nil,
    List.append_nil]

-- Moving operators from the stack to the output keeps what is in both.
theorem all_flushed (h : Sorted ts k sent (flushed ++ rest))
    (hflushed : ∀ i ∈ flushed, (tokenAt ts i).isOperator = true) :
    (sent ++ flushed ++ operatorsOf ts rest).Perm ((List.range k).filter (shown ts)) := by
  have hall := h.all
  rwa [operatorsOf_append, operatorsOf_eq_self hflushed, ← List.append_assoc] at hall

theorem passed_flushed (h : Sorted ts k sent (flushed ++ rest)) (hkey : ∀ i ∈ flushed, key ts i = k) :
    ∀ i ∈ sent ++ flushed, key ts i < k + 1 := by
  intro i hi
  rcases List.mem_append.1 hi with hi | hi
  · exact Nat.lt_succ_of_lt (h.passed i hi)
  · exact hkey i hi ▸ Nat.lt_succ_self _

theorem sorted_flushed (h : Sorted ts k sent (flushed ++ rest)) (hkey : ∀ i ∈ flushed, key ts i = k) :
    (sent ++ flushed).Pairwise (Before ts) :=
  pairwise_append_flushed h.sorted h.passed (List.pairwise_append.1 h.stacked.later).1 hkey

-- A token that neither is shown nor touches a group changes nothing.
theorem invalid {c : Char} (h : Sorted ts k sent waiting) (hk : (tokenAt ts k).lexeme = .invalid c) :
    Sorted ts (k + 1) sent waiting where
  stacked := h.stacked.succ_of_not_releases fun op => by rw [hk]; rfl
  groups := by
    rw [h.groups, groupsAt, hk]
  all := by
    rw [range_succ_of_not_shown (by rw [shown, Token.isNumber, Token.isOperator, hk]; rfl)]
    exact h.all
  passed i hi := Nat.lt_succ_of_lt (h.passed i hi)
  sorted := h.sorted

theorem number {literal : List Char} (h : Sorted ts k sent waiting)
    (hk : (tokenAt ts k).lexeme = .number literal) : Sorted ts (k + 1) (sent ++ [k]) waiting where
  stacked := h.stacked.succ_of_not_releases fun op => by rw [hk]; rfl
  groups := by
    rw [h.groups, groupsAt, hk]
  all := by
    -- the new number goes before what waits
    rw [range_succ_of_shown (by rw [shown, Token.isNumber, hk]; rfl), List.append_assoc]
    apply (List.perm_append_comm.append_left sent).trans
    rw [← List.append_assoc]
    exact h.all.append_right [k]
  passed i hi := by
    rcases List.mem_append.1 hi with hi | hi
    · exact Nat.lt_succ_of_lt (h.passed i hi)
    · rw [List.mem_singleton.1 hi, key_of_not_operator (by rw [Token.isOperator, hk])]
      exact Nat.lt_succ_self k
  sorted := by
    refine pairwise_append_flushed h.sorted h.passed (List.pairwise_singleton _ _) ?_
    intro i hi
    rw [List.mem_singleton.1 hi, key_of_not_operator (by rw [Token.isOperator, hk])]

theorem opening (h : Sorted ts k sent waiting) (hk : (tokenAt ts k).lexeme = .opening) :
    Sorted ts (k + 1) sent (k :: waiting) where
  stacked := by
    have hsucc : Stacked ts (k + 1) waiting :=
      h.stacked.succ_of_not_releases fun op => by rw [hk]; rfl
    refine hsucc.push h.stacked.lt (Token.waits_iff.2 (.inl hk)) ?_ ?_
    · rw [Token.isOperator, hk]
      simp
    · intro i _ a b ha
      rw [hk] at ha
      contradiction
  groups := by
    rw [openingsOf_cons_of_opens (Token.opens_iff.2 hk), h.groups, groupsAt, hk]
  all := by
    rw [range_succ_of_not_shown (by rw [shown, Token.isNumber, Token.isOperator, hk]; rfl),
      operatorsOf_cons_of_opens (Token.opens_iff.2 hk)]
    exact h.all
  passed i hi := Nat.lt_succ_of_lt (h.passed i hi)
  sorted := h.sorted

-- An operator sends those to the output that apply before it, and waits on the others.
theorem operator {op : Operator} (h : Sorted ts k sent (flushed ++ rest)) (hlength : k < ts.length)
    (hk : (tokenAt ts k).lexeme = .operator op)
    (hflushed : ∀ i ∈ flushed, (tokenAt ts i).settles op = true)
    (hrest : ∀ i ∈ rest.head?, (tokenAt ts i).settles op = false) :
    Sorted ts (k + 1) (sent ++ flushed) (k :: rest) := by
  have hisOperator : (tokenAt ts k).isOperator = true := Token.isOperator_iff.2 ⟨op, hk⟩
  have hops : ∀ i ∈ flushed, (tokenAt ts i).isOperator = true :=
    fun i hi => Token.isOperator_of_settles (hflushed i hi)
  have hkey : ∀ i ∈ flushed, key ts i = k := by
    intro i hi
    obtain ⟨a, ha⟩ := Token.isOperator_iff.1 (hops i hi)
    exact h.stacked.key_eq (by simp [hi]) ha
      (h.stacked.releases_of_settles h.groups hk hflushed hi ha) hlength
  have hkeep : ∀ i ∈ rest, ∀ a, (tokenAt ts i).lexeme = .operator a → releases ts a i k = false :=
    fun i hi a ha => h.stacked.not_releases_of_settles h.groups hk hflushed hrest hi ha
  have hgroups : openingsOf ts rest = groupsAt ts k := by
    rw [← h.groups, openingsOf_append hops]
  have hrestlt : ∀ i ∈ rest, i < k := fun i hi => h.stacked.lt i (by simp [hi])
  refine ⟨(h.stacked.below.succ hkeep).push hrestlt (Token.waits_iff.2 (.inr ⟨op, hk⟩)) ?_ ?_, ?_, ?_,
    h.passed_flushed hkey, h.sorted_flushed hkey⟩
  · intro _
    rw [hgroups, groupAt]
  · -- what is not released although it is in the group binds no tighter
    intro i hi a b ha hb hgroup
    have hnot := hkeep i hi b hb
    rw [hk] at ha
    cases ha
    rw [← Bool.not_eq_true, releases_eq_true_iff, hk, Lexeme.releases, decide_eq_true_eq] at hnot
    by_contra hlt
    exact hnot ⟨hrestlt i hi, hgroup, .inl (Nat.lt_of_not_le hlt)⟩
  · rw [openingsOf_cons_of_isOperator hisOperator, hgroups, groupsAt, hk]
  · rw [range_succ_of_shown (by rw [shown, hisOperator, Bool.or_true]),
      operatorsOf_cons_of_isOperator hisOperator]
    apply List.perm_middle.trans
    refine (List.perm_append_singleton k _).symm.trans ?_
    exact (h.all_flushed hops).append_right [k]

-- A closing parenthesis sends its group to the output and takes the opening away.
theorem closing (h : Sorted ts k sent (flushed ++ rest)) (hlength : k < ts.length)
    (hk : (tokenAt ts k).lexeme = .closing)
    (hflushed : ∀ i ∈ flushed, (tokenAt ts i).opens = false)
    (hrest : ∀ i ∈ rest.head?, (tokenAt ts i).opens = true) :
    Sorted ts (k + 1) (sent ++ flushed) rest.tail := by
  have hops : ∀ i ∈ flushed, (tokenAt ts i).isOperator = true :=
    fun i hi => Token.isOperator_of_waits (h.stacked.waits i (by simp [hi])) (hflushed i hi)
  have hkey : ∀ i ∈ flushed, key ts i = k := by
    intro i hi
    obtain ⟨a, ha⟩ := Token.isOperator_iff.1 (hops i hi)
    exact h.stacked.key_eq (by simp [hi]) ha (h.stacked.releases_of_closing h.groups hk hops hi) hlength
  have hshown : shown ts k = false := by rw [shown, Token.isNumber, Token.isOperator, hk]; rfl
  have hall := h.all_flushed hops
  have hgroups : openingsOf ts rest = groupsAt ts k := by
    rw [← h.groups, openingsOf_append hops]
  cases rest with
  | nil =>
    -- no group is open, and there is no opening to take away
    refine ⟨h.stacked.below.succ (by simp), ?_, ?_, h.passed_flushed hkey, h.sorted_flushed hkey⟩
    · rw [groupsAt, hk, ← hgroups]
      rfl
    · rw [range_succ_of_not_shown hshown]
      exact hall
  | cons o below =>
    have ho := hrest o rfl
    have hkeep : ∀ i ∈ below, ∀ a, (tokenAt ts i).lexeme = .operator a → releases ts a i k = false :=
      fun i hi a ha => h.stacked.not_releases_of_closing h.groups hops ho hi ha
    have hstacked : Stacked ts k ([o] ++ below) := h.stacked.below
    refine ⟨hstacked.below.succ hkeep, ?_, ?_, h.passed_flushed hkey, h.sorted_flushed hkey⟩
    · rw [groupsAt, hk, ← hgroups, openingsOf_cons_of_opens ho]
      rfl
    · rw [range_succ_of_not_shown hshown]
      rwa [operatorsOf_cons_of_opens ho] at hall

-- At the end all that waits is released at once.
theorem of_no_opens (h : Sorted ts ts.length sent waiting)
    (hopens : ∀ i ∈ waiting, (tokenAt ts i).opens = false) :
    (sent ++ waiting).Perm ((List.range ts.length).filter (shown ts)) ∧
      (sent ++ waiting).Pairwise (Before ts) := by
  have hops : ∀ i ∈ waiting, (tokenAt ts i).isOperator = true :=
    fun i hi => Token.isOperator_of_waits (h.stacked.waits i hi) (hopens i hi)
  -- no token is left that could release it
  have hkey : ∀ i ∈ waiting, key ts i = ts.length := by
    intro i hi
    obtain ⟨a, ha⟩ := Token.isOperator_iff.1 (hops i hi)
    exact key_of_unreleased ha (h.stacked.unreleased i hi a ha)
  have hall := h.all
  rw [operatorsOf_eq_self hops] at hall
  exact ⟨hall, pairwise_append_flushed h.sorted h.passed h.stacked.later hkey⟩

end Sorted

/-! ## 5. All tokens -/

/-- The yard shows the first `k` tokens of `ts` as a sorted output and a stack. -/
def Yard.Sorts (ts : List Token) (k : Nat) (y : Yard) : Prop :=
  ∃ sent waiting, y.output = sent.map (tokenAt ts) ∧ y.waiting = waiting.map (tokenAt ts) ∧
    Sorted ts k sent waiting

namespace Yard

variable {ts : List Token} {k : Nat} {y : Yard}

-- A split of the stack by a property of its tokens is a split of their numbers.
theorem split_waiting {sent waiting : List Nat} (p : Token → Bool) (h : Sorted ts k sent waiting) :
    Sorted ts k sent (waiting.takeWhile (p ∘ tokenAt ts) ++ waiting.dropWhile (p ∘ tokenAt ts)) ∧
      (∀ i ∈ waiting.takeWhile (p ∘ tokenAt ts), p (tokenAt ts i) = true) ∧
      ∀ i ∈ (waiting.dropWhile (p ∘ tokenAt ts)).head?, p (tokenAt ts i) = false := by
  refine ⟨?_, ?_, ?_⟩
  · rw [List.takeWhile_append_dropWhile]
    exact h
  · intro i hi
    exact List.mem_takeWhile_imp (p := p ∘ tokenAt ts) hi
  · intro i hi
    have hnot := List.head?_dropWhile_not (p ∘ tokenAt ts) waiting
    rw [Option.mem_def.1 hi] at hnot
    exact hnot

theorem Sorts.absorb (h : Sorts ts k y) (hlength : k < ts.length) :
    Sorts ts (k + 1) (y.absorb (tokenAt ts k)) := by
  obtain ⟨sent, waiting, houtput, hwaiting, hsorted⟩ := h
  cases hk : (tokenAt ts k).lexeme with
  | number literal =>
    rw [absorb_of_number hk, houtput]
    exact ⟨sent ++ [k], waiting, by rw [List.map_append]; rfl, hwaiting, hsorted.number hk⟩
  | operator op =>
    obtain ⟨hsplit, hflushed, hrest⟩ := split_waiting (Token.settles op) hsorted
    rw [absorb_of_operator hk, houtput, hwaiting, List.takeWhile_map, List.dropWhile_map]
    exact ⟨_, _, List.map_append.symm, rfl, hsplit.operator hlength hk hflushed hrest⟩
  | opening =>
    rw [absorb_of_opening hk, hwaiting]
    exact ⟨sent, k :: waiting, houtput, rfl, hsorted.opening hk⟩
  | closing =>
    obtain ⟨hsplit, hflushed, hrest⟩ := split_waiting (!·.opens) hsorted
    rw [absorb_of_closing hk, houtput, hwaiting, List.takeWhile_map, List.dropWhile_map]
    exact ⟨_, _, List.map_append.symm, List.map_tail.symm,
      hsplit.closing hlength hk (by simpa using hflushed) (by simpa using hrest)⟩
  | invalid c =>
    rw [absorb_of_invalid hk]
    exact ⟨sent, waiting, houtput, hwaiting, hsorted.invalid hk⟩

theorem sorts_absorbAll (before after : List Token) (hts : ts = before ++ after)
    (h : Sorts ts before.length y) (hfault : (y.absorbAll after).fault = none) :
    Sorts ts ts.length (y.absorbAll after).last := by
  induction after generalizing before y with
  | nil =>
    rw [hts, List.append_nil] at h ⊢
    exact h
  | cons t after ih =>
    have ht : tokenAt ts before.length = t := by simp [tokenAt, hts]
    have habsorb := h.absorb (by simp [hts])
    rw [ht] at habsorb
    obtain ⟨-, hrest, hcons⟩ := absorbAll_cons hfault
    rw [hcons]
    refine ih (before ++ [t]) (by rw [hts, List.append_cons]) ?_ hrest
    rw [List.length_append]
    exact habsorb

theorem output_convert_sorted {stop : Nat} (h : (empty.convert ts stop).fault = none) :
    ∃ order : List Nat, order.Perm ((List.range ts.length).filter (shown ts)) ∧
      order.Pairwise (Before ts) ∧ (empty.convert ts stop).last.output = order.map (tokenAt ts) := by
  obtain ⟨hfault, hopens, houtput⟩ := output_convert h
  obtain ⟨sent, waiting, hsent, hwaiting, hsorted⟩ :=
    sorts_absorbAll [] ts (List.nil_append ts).symm
      (show Sorts ts 0 empty from ⟨[], [], rfl, rfl, sorted_zero ts⟩) hfault
  rw [hwaiting, List.any_eq_false] at hopens
  obtain ⟨hperm, hpairwise⟩ := hsorted.of_no_opens fun i hi => by
    simpa using hopens _ (List.mem_map_of_mem hi)
  exact ⟨sent ++ waiting, hperm, hpairwise, by rw [houtput, hsent, hwaiting, List.map_append]⟩

end Yard

/-! ## 6. Texts -/

theorem Before.asymm {ts : List Token} {i j : Nat} (h : Before ts i j) : ¬ Before ts j i := by
  unfold Before at h ⊢
  omega

/-- The reverse Polish form of an accepted text shows each number and each operator of it once, and nothing
else, in the only order that goes by the keys and puts the later one of two tokens of the same key first. -/
theorem toReversePolish_sorted {s : String} {output : List String}
    (h : toReversePolish s = .ok output) :
    ∃ ts, (∀ us, Reading 0 s.toList us ↔ us = ts) ∧
      ∃ order : List Nat,
        (∀ is : List Nat, is.Perm ((List.range ts.length).filter fun i =>
          (tokenAt ts i).isNumber || (tokenAt ts i).isOperator) ∧ is.Pairwise (Before ts) ↔ is = order) ∧
        output = order.map fun i => (tokenAt ts i).text := by
  obtain ⟨ts, reading⟩ : ∃ ts, Reading 0 s.toList ts := ⟨_, reading_scan _ _⟩
  rw [toReversePolish_eq reading] at h
  split at h
  · rename_i hfault
    cases h
    obtain ⟨order, hperm, hpairwise, houtput⟩ := Yard.output_convert_sorted hfault
    refine ⟨ts, reading_iff reading, order, ?_, ?_⟩
    · intro is
      constructor
      · rintro ⟨his, hsorted⟩
        exact (his.trans hperm.symm).eq_of_pairwise
          (fun i j _ _ hij hji => absurd hji hij.asymm) hsorted hpairwise
      · rintro rfl
        exact ⟨hperm, hpairwise⟩
    · rw [houtput, List.map_map]
      rfl
  · contradiction

/-- The counts alone admit this text, in which operands stand side by side and an operator ends a group. -/
theorem toReversePolish_sorted_ungrammatical :
    toReversePolish "8 (1 2 - 5 ^ 6) * 3 4 +" =
        .ok ["8", "1", "2", "5", "6", "^", "-", "3", "4", "*", "+"] ∧
      ∃ ts, (∀ us, Reading 0 "8 (1 2 - 5 ^ 6) * 3 4 +".toList us ↔ us = ts) ∧
        ∃ order : List Nat,
          (∀ is : List Nat, is.Perm ((List.range ts.length).filter fun i =>
            (tokenAt ts i).isNumber || (tokenAt ts i).isOperator) ∧ is.Pairwise (Before ts) ↔ is = order) ∧
          ["8", "1", "2", "5", "6", "^", "-", "3", "4", "*", "+"] =
            order.map fun i => (tokenAt ts i).text := by
  have hscan : scan 0 "8 (1 2 - 5 ^ 6) * 3 4 +".toList =
      [⟨0, .number ['8']⟩, ⟨2, .opening⟩, ⟨3, .number ['1']⟩, ⟨5, .number ['2']⟩, ⟨7, .operator .sub⟩,
        ⟨9, .number ['5']⟩, ⟨11, .operator .pow⟩, ⟨13, .number ['6']⟩, ⟨14, .closing⟩,
        ⟨16, .operator .mul⟩, ⟨18, .number ['3']⟩, ⟨20, .number ['4']⟩, ⟨22, .operator .add⟩] := by
    simp [scan, separator, digits, numberRun, afterNumber, continuesNumber, delimiters, closingChar,
      openingChar, Lexeme.single, Operator.ofChar?, Operator.all, Operator.char]
  have h : toReversePolish "8 (1 2 - 5 ^ 6) * 3 4 +" =
      .ok ["8", "1", "2", "5", "6", "^", "-", "3", "4", "*", "+"] := by
    rw [toReversePolish_eq (reading_scan _ _), hscan]
    rfl
  exact ⟨h, toReversePolish_sorted h⟩

end ReversePolish
