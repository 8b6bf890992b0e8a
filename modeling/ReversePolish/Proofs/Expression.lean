import ReversePolish.Proofs.Refinement

/-!
# Expression — written trees and their reverse Polish form

An expression is written with the parentheses that its precedences call for, and with as many others and as
many spaces as one likes.  However it is written, it is converted to its operands and operators in postorder.
-/

namespace ReversePolish

/-! ## 1. Expressions -/

/-- The characters of a number: a digit, then neither a space nor a closing parenthesis. -/
structure Literal where
  digit : Char
  run : List Char
  digit_mem : digit ∈ digits
  run_continues : ∀ c ∈ run, c ≠ ' ' ∧ c ≠ ')'

namespace Literal

def chars (n : Literal) : List Char := n.digit :: n.run

def text (n : Literal) : String := String.ofList n.chars

end Literal

inductive Expr where
  | number (n : Literal)
  | binary (op : Operator) (left right : Expr)

/-- The left operand, the right operand, then the operator. -/
def Expr.postorder : Expr → List String
  | number n => [n.text]
  | binary op left right => left.postorder ++ right.postorder ++ [op.symbol]

/-! ## 2. Ways to write an expression -/

/-- Whether a left operand whose operator is `child` stands in parentheses below `parent`. -/
def Operator.enclosesLeft (parent child : Operator) : Prop :=
  child.fixity.precedence < parent.fixity.precedence ∨
    (child.fixity.precedence = parent.fixity.precedence ∧ parent.fixity.associativity = .right)

/-- Whether a right operand whose operator is `child` stands in parentheses below `parent`. -/
def Operator.enclosesRight (parent child : Operator) : Prop :=
  child.fixity.precedence < parent.fixity.precedence ∨
    (child.fixity.precedence = parent.fixity.precedence ∧ parent.fixity.associativity = .left)

instance (parent child : Operator) : Decidable (parent.enclosesLeft child) :=
  inferInstanceAs (Decidable (_ ∨ _))

instance (parent child : Operator) : Decidable (parent.enclosesRight child) :=
  inferInstanceAs (Decidable (_ ∨ _))

/-- `Rendering e bare ls`: the lexemes `ls` write the expression `e`; `bare` is the operator of `e` if it
stands outside of all parentheses.  Any expression may be put in parentheses, again and again. -/
inductive Rendering : Expr → Option Operator → List Lexeme → Prop where
  | number (n : Literal) : Rendering (.number n) none [.number n.chars]
  | binary (op : Operator) {left right : Expr} {l r : Option Operator} {ls rs : List Lexeme} :
      Rendering left l ls → Rendering right r rs →
      (∀ child ∈ l, ¬ op.enclosesLeft child) → (∀ child ∈ r, ¬ op.enclosesRight child) →
      Rendering (.binary op left right) (some op) (ls ++ .operator op :: rs)
  | parens {e : Expr} {bare : Option Operator} {ls : List Lexeme} :
      Rendering e bare ls → Rendering e none (.opening :: (ls ++ [.closing]))

/-- `Spelling ls cs`: the characters `cs` write the lexemes `ls`, with any number of spaces before and behind
each of them and at least one behind a number, unless a closing parenthesis or the end follows. -/
inductive Spelling : List Lexeme → List Char → Prop where
  | done : Spelling [] []
  | space {ls : List Lexeme} {cs : List Char} : Spelling ls cs → Spelling ls (' ' :: cs)
  | number (n : Literal) {ls : List Lexeme} {cs : List Char} :
      (∀ c ∈ cs.head?, c = ' ' ∨ c = ')') → Spelling ls cs →
      Spelling (.number n.chars :: ls) (n.chars ++ cs)
  | operator (op : Operator) {ls : List Lexeme} {cs : List Char} :
      Spelling ls cs → Spelling (.operator op :: ls) (op.char :: cs)
  | opening {ls : List Lexeme} {cs : List Char} : Spelling ls cs → Spelling (.opening :: ls) ('(' :: cs)
  | closing {ls : List Lexeme} {cs : List Char} : Spelling ls cs → Spelling (.closing :: ls) (')' :: cs)

-- What is written is read again.
theorem Spelling.exists_reading {ls : List Lexeme} {cs : List Char} (h : Spelling ls cs) (pos : Nat) :
    ∃ ts, Reading pos cs ts ∧ ts.map Token.lexeme = ls := by
  induction h generalizing pos with
  | done => exact ⟨[], .done, rfl⟩
  | space _ ih =>
    obtain ⟨ts, hts, rfl⟩ := ih (pos + 1)
    exact ⟨ts, .space hts, rfl⟩
  | number n hrest _ ih =>
    obtain ⟨ts, hts, rfl⟩ := ih (pos + 1 + n.run.length)
    exact ⟨_, .number n.digit_mem n.run_continues hrest hts, rfl⟩
  | operator op _ ih =>
    obtain ⟨ts, hts, rfl⟩ := ih (pos + 1)
    exact ⟨_, .operator op hts, rfl⟩
  | opening _ ih =>
    obtain ⟨ts, hts, rfl⟩ := ih (pos + 1)
    exact ⟨_, .opening hts, rfl⟩
  | closing _ ih =>
    obtain ⟨ts, hts, rfl⟩ := ih (pos + 1)
    exact ⟨_, .closing hts, rfl⟩

theorem exists_rendering (e : Expr) : ∃ bare ls, Rendering e bare ls := by
  induction e with
  | number n => exact ⟨_, _, .number n⟩
  | binary op left right ihl ihr =>
    obtain ⟨l, ls, hl⟩ := ihl
    obtain ⟨r, rs, hr⟩ := ihr
    -- in parentheses an operand may stand below every operator
    exact ⟨_, _, .binary op hl.parens hr.parens (by simp) (by simp)⟩

theorem Rendering.exists_spelling {e : Expr} {bare : Option Operator} {ls rest : List Lexeme}
    {cs : List Char} (h : Rendering e bare ls) (hrest : Spelling rest cs) :
    ∃ front, Spelling (ls ++ rest) (front ++ cs) := by
  induction h generalizing rest cs with
  | number n =>
    refine ⟨n.chars ++ [' '], ?_⟩
    rw [List.append_assoc]
    exact .number n (by simp) (.space hrest)
  | @binary op _ _ _ _ ls rs _ _ _ _ ihl ihr =>
    obtain ⟨back, hback⟩ := ihr hrest
    obtain ⟨front, hfront⟩ := ihl (.operator op hback)
    refine ⟨front ++ op.char :: back, ?_⟩
    rw [List.append_assoc, List.append_assoc]
    exact hfront
  | @parens _ _ ls _ ih =>
    obtain ⟨front, hfront⟩ := ih (.closing hrest)
    refine ⟨'(' :: (front ++ [')']), ?_⟩
    rw [List.cons_append, List.cons_append, List.append_assoc, List.append_assoc]
    exact .opening hfront

-- Every expression can be written.
theorem exists_text (e : Expr) :
    ∃ (s : String) (bare : Option Operator) (ls : List Lexeme), Rendering e bare ls ∧
      Spelling ls s.toList := by
  obtain ⟨bare, ls, h⟩ := exists_rendering e
  obtain ⟨cs, hcs⟩ := h.exists_spelling .done
  rw [List.append_nil, List.append_nil] at hcs
  refine ⟨String.ofList cs, bare, ls, h, ?_⟩
  rwa [String.toList_ofList]

/-! ## 3. Precedences -/

section

variable {parent child : Operator}

-- A left operand that may stand bare is finished when the operator comes.
theorem Operator.appliesBefore_of_not_enclosesLeft (h : ¬ parent.enclosesLeft child) :
    child.appliesBefore parent = true := by
  rw [enclosesLeft, not_or, not_and] at h
  obtain ⟨hle, hright⟩ := h
  rw [appliesBefore_iff]
  rcases Nat.lt_or_eq_of_le (Nat.le_of_not_lt hle) with hlt | heq
  · exact .inl hlt
  · right
    refine ⟨heq, ?_⟩
    cases hassoc : parent.fixity.associativity with
    | left => rfl
    | right => exact absurd hassoc (hright heq.symm)

-- The operator waits for all of a right operand that may stand bare.
theorem Operator.not_appliesBefore_of_not_enclosesRight (h : ¬ parent.enclosesRight child) :
    parent.appliesBefore child = false := by
  rw [enclosesRight, not_or, not_and] at h
  obtain ⟨hle, hleft⟩ := h
  rw [← Bool.not_eq_true, appliesBefore_iff]
  rintro (hlt | ⟨heq, hassoc⟩)
  · exact hle hlt
  · exact hleft heq (associativity_eq heq ▸ hassoc)

theorem Operator.le_of_not_enclosesLeft (h : ¬ parent.enclosesLeft child) :
    parent.fixity.precedence ≤ child.fixity.precedence :=
  Nat.le_of_not_lt fun hlt => h (.inl hlt)

theorem Operator.le_of_not_enclosesRight (h : ¬ parent.enclosesRight child) :
    parent.fixity.precedence ≤ child.fixity.precedence :=
  Nat.le_of_not_lt fun hlt => h (.inl hlt)

end

/-! ## 4. The course of an expression -/

namespace Yard

/-- From `y`, all tokens `ts` are absorbed, and `z` is the yard behind them. -/
def Leads (y : Yard) (ts : List Token) (z : Yard) : Prop :=
  (y.absorbAll ts).fault = none ∧ (y.absorbAll ts).last = z

theorem Leads.append {y z v : Yard} {ts us : List Token} (h : Leads y ts z) (h' : Leads z us v) :
    Leads y (ts ++ us) v := by
  obtain ⟨hfault, rfl⟩ := h
  rw [Leads, absorbAll_append, Course.andThen_of_no_fault hfault]
  exact h'

theorem leads_of_complaint {y : Yard} {t : Token} (h : y.complaint? t = none) :
    Leads y [t] (y.absorb t) := by
  rw [Leads, absorbAll, h]
  exact ⟨rfl, rfl⟩

-- At the end of the text what waits follows behind the output.
theorem Leads.convert {y z : Yard} {ts : List Token} (h : Leads y ts z)
    (hclosed : z.waiting.any Token.opens = false) (hcounts : z.operators < z.numbers) (stop : Nat) :
    (y.convert ts stop).fault = none ∧ (y.convert ts stop).last =
      { z.pass stop with output := z.output ++ z.waiting, waiting := [] } := by
  obtain ⟨hfault, rfl⟩ := h
  rw [Yard.convert, Course.andThen_of_no_fault hfault]
  dsimp only
  rw [conclude, pass, if_neg (show ¬ (y.absorbAll ts).last.numbers ≤ (y.absorbAll ts).last.operators by omega),
    drain_fault, hclosed]
  exact ⟨rfl, last_drain hclosed⟩

/-- Between `y` and `z` lies the expression `e`, which stands on the stack of `y` without touching it: the
tokens `sent` went to the output and `kept` wait on top.  These bind at least as tightly as the operator that
`e` shows outside of its parentheses, so they leave the stack when that one does. -/
structure Between (e : Expr) (bare : Option Operator) (y z : Yard) (sent kept : List Token) : Prop where
  output : z.output = y.output ++ sent
  waiting : z.waiting = kept ++ y.waiting
  counts : z.numbers + y.operators = z.operators + y.numbers + 1
  postorder : (sent ++ kept).map Token.text = e.postorder
  tight : ∀ t ∈ kept, ∃ o ∈ bare, ∃ a : Operator,
    t.lexeme = .operator a ∧ o.fixity.precedence ≤ a.fixity.precedence

/-- The top of the stack waits for every operator that an expression shows outside of its parentheses. -/
def Waits (bare : Option Operator) (y : Yard) : Prop :=
  ∀ o ∈ bare, ∀ t ∈ y.waiting.head?, t.settles o = false

-- What waits for an operator waits for those that bind at least as tightly, too.
theorem Waits.mono {op : Operator} {bare : Option Operator} {y : Yard} (hy : Waits (some op) y)
    (hle : ∀ o ∈ bare, op.fixity.precedence ≤ o.fixity.precedence) : Waits bare y := by
  intro o ho t ht
  have hop : t.settles op = false := hy op rfl t ht
  rw [← Bool.not_eq_true] at hop ⊢
  intro hsettles
  obtain ⟨a, ha⟩ := Token.isOperator_iff.1 (Token.isOperator_of_settles hsettles)
  rw [Token.settles_of_operator ha] at hop hsettles
  exact hop (Operator.appliesBefore_of_le_right (hle o ho) hsettles)

section

variable {e : Expr} {bare : Option Operator} {y z : Yard} {sent kept : List Token}

theorem Between.kept_opens (h : Between e bare y z sent kept) : ∀ t ∈ kept, t.opens = false := by
  intro t ht
  obtain ⟨o, -, a, ha, -⟩ := h.tight t ht
  exact Token.opens_eq_false_of_isOperator (Token.isOperator_iff.2 ⟨a, ha⟩)

-- An operator behind its left operand sends what that has kept, and nothing else.
theorem Between.split_settles {op : Operator} (h : Between e bare y z sent kept)
    (hbare : ∀ o ∈ bare, o.appliesBefore op = true) (hy : Waits (some op) y) :
    z.waiting.takeWhile (Token.settles op) = kept ∧
      z.waiting.dropWhile (Token.settles op) = y.waiting := by
  have hkept : ∀ t ∈ kept, t.settles op = true := by
    intro t ht
    obtain ⟨o, ho, a, ha, hle⟩ := h.tight t ht
    rw [Token.settles_of_operator ha]
    exact Operator.appliesBefore_of_le_left hle (hbare o ho)
  rw [h.waiting, List.takeWhile_append_of_pos hkept, List.dropWhile_append_of_pos hkept]
  -- the stack of `y` waits for the operator
  cases hwaiting : y.waiting with
  | nil => simp
  | cons t rest =>
    have ht : t.settles op = false := hy op rfl t (by rw [hwaiting]; rfl)
    simp [ht]

-- A closing parenthesis sends what the expression behind its opening has kept, and nothing else.
theorem Between.split_opens {o : Token} {rest : List Token} (h : Between e bare y z sent kept)
    (hy : y.waiting = o :: rest) (ho : o.opens = true) :
    z.waiting.takeWhile (!·.opens) = kept ∧ z.waiting.dropWhile (!·.opens) = o :: rest := by
  have hkept : ∀ t ∈ kept, (!t.opens) = true := by
    intro t ht
    rw [h.kept_opens t ht]
    rfl
  rw [h.waiting, hy, List.takeWhile_append_of_pos hkept, List.dropWhile_append_of_pos hkept]
  simp [ho]

end

/-! ## 5. Every way to write an expression -/

theorem exists_between_number {y : Yard} {t : Token} {n : Literal} (ht : t.lexeme = .number n.chars) :
    ∃ z sent kept, Leads y [t] z ∧ Between (.number n) none y z sent kept := by
  refine ⟨y.absorb t, [t], [], leads_of_complaint (by rw [complaint?, ht]), ?_⟩
  rw [absorb_of_number ht]
  refine ⟨rfl, rfl, ?_, ?_, by simp⟩
  · dsimp only
    omega
  · rw [List.append_nil, List.map_singleton, Token.text, ht]
    rfl

theorem exists_between_binary {op : Operator} {left right : Expr} {l r : Option Operator} {y z : Yard}
    {t : Token} {ts us sent kept : List Token} (ht : t.lexeme = .operator op)
    (hl : ∀ child ∈ l, ¬ op.enclosesLeft child) (hr : ∀ child ∈ r, ¬ op.enclosesRight child)
    (hy : Waits (some op) y) (hts : Leads y ts z) (hleft : Between left l y z sent kept)
    (ihright : ∀ v : Yard, Waits r v →
      ∃ w sent' kept', Leads v us w ∧ Between right r v w sent' kept') :
    ∃ w sent' kept', Leads y (ts ++ t :: us) w ∧
      Between (.binary op left right) (some op) y w sent' kept' := by
  obtain ⟨htake, hdrop⟩ := hleft.split_settles
    (fun child hchild => Operator.appliesBefore_of_not_enclosesLeft (hl child hchild)) hy
  have hv : z.absorb t = ⟨t.stop, y.output ++ sent ++ kept, t :: y.waiting, z.operators + 1, z.numbers⟩ := by
    rw [absorb_of_operator ht, htake, hdrop, hleft.output]
  -- the operator itself is now on top, and waits for what its right operand shows
  have hwaits : Waits r (z.absorb t) := by
    intro child hchild u hu
    rw [hv] at hu
    cases hu
    rw [Token.settles_of_operator ht]
    exact Operator.not_appliesBefore_of_not_enclosesRight (hr child hchild)
  obtain ⟨w, sent', kept', hus, hright⟩ := ihright _ hwaits
  have houtput := hright.output
  have hwaiting := hright.waiting
  have hcounts := hright.counts
  have hcountsLeft := hleft.counts
  rw [hv] at houtput hwaiting hcounts
  -- behind the right operand the operator is the last one that is kept
  refine ⟨w, sent ++ kept ++ sent', kept' ++ [t],
    hts.append ((leads_of_complaint (by rw [complaint?, ht])).append hus), ?_, ?_, ?_, ?_, ?_⟩
  · rw [houtput]
    simp only [List.append_assoc]
  · rw [hwaiting]
    simp only [List.append_assoc, List.singleton_append]
  · dsimp only at hcounts
    omega
  · have htext : t.text = op.symbol := by rw [Token.text, ht]; rfl
    rw [Expr.postorder, ← hleft.postorder, ← hright.postorder, ← htext]
    simp only [List.map_append, List.map_singleton, List.append_assoc]
  · intro u hu
    refine ⟨op, rfl, ?_⟩
    rcases List.mem_append.1 hu with hu | hu
    · obtain ⟨child, hchild, a, ha, hle⟩ := hright.tight u hu
      exact ⟨a, ha, Nat.le_trans (Operator.le_of_not_enclosesRight (hr child hchild)) hle⟩
    · rw [List.mem_singleton.1 hu]
      exact ⟨op, ht, Nat.le_refl _⟩

theorem exists_between_parens {e : Expr} {bare : Option Operator} {y : Yard} {t u : Token}
    {ts : List Token} (ht : t.lexeme = .opening) (hu : u.lexeme = .closing)
    (ih : ∀ v : Yard, Waits bare v → ∃ w sent kept, Leads v ts w ∧ Between e bare v w sent kept) :
    ∃ z sent kept, Leads y (t :: (ts ++ [u])) z ∧ Between e none y z sent kept := by
  have hopens : t.opens = true := Token.opens_iff.2 ht
  have hv : y.absorb t = ⟨t.stop, y.output, t :: y.waiting, y.operators, y.numbers⟩ := by
    rw [absorb_of_opening ht]
  -- an opening parenthesis waits for everything, so nothing is asked of `y`
  have hwaits : Waits bare (y.absorb t) := by
    intro o _ v hvmem
    rw [hv] at hvmem
    cases hvmem
    rw [Token.settles, ht]
  obtain ⟨w, sent, kept, hts, hinner⟩ := ih _ hwaits
  obtain ⟨htake, hdrop⟩ := hinner.split_opens (by rw [hv]) hopens
  have hcomplaint : w.complaint? u = none := by
    have hany : w.waiting.any Token.opens = true := by
      rw [hinner.waiting, hv]
      simp [hopens]
    rw [complaint?, hu, hany]
    rfl
  have houtput := hinner.output
  have hcounts := hinner.counts
  rw [hv] at houtput hcounts
  refine ⟨w.absorb u, sent ++ kept, [], ?_, ?_⟩
  · exact (leads_of_complaint (by rw [complaint?, ht])).append (hts.append (leads_of_complaint hcomplaint))
  · rw [absorb_of_closing hu, htake, hdrop, houtput]
    refine ⟨?_, rfl, hcounts, ?_, by simp⟩
    · dsimp only
      rw [List.append_assoc]
    · rw [List.append_nil]
      exact hinner.postorder

theorem exists_between {e : Expr} {bare : Option Operator} {ls : List Lexeme}
    (h : Rendering e bare ls) {ts : List Token} (hts : ts.map Token.lexeme = ls) {y : Yard}
    (hy : Waits bare y) : ∃ z sent kept, Leads y ts z ∧ Between e bare y z sent kept := by
  -- on the way of writing, for every stack that waits for what is bare in it
  induction h generalizing ts y with
  | number n =>
    obtain ⟨t, rfl, ht⟩ := List.map_eq_singleton_iff.1 hts
    exact exists_between_number ht
  | binary op _ _ hl hr ihl ihr =>
    obtain ⟨ts, us, rfl, hls, hus⟩ := List.map_eq_append_iff.1 hts
    obtain ⟨t, us, rfl, ht, hrs⟩ := List.map_eq_cons_iff.1 hus
    obtain ⟨z, sent, kept, hlead, hleft⟩ :=
      ihl hls (hy.mono fun child hchild => Operator.le_of_not_enclosesLeft (hl child hchild))
    exact exists_between_binary ht hl hr hy hlead hleft fun v hv => ihr hrs hv
  | parens _ ih =>
    obtain ⟨t, us, rfl, ht, hus⟩ := List.map_eq_cons_iff.1 hts
    obtain ⟨ts, vs, rfl, hls, hvs⟩ := List.map_eq_append_iff.1 hus
    obtain ⟨u, rfl, hu⟩ := List.map_eq_singleton_iff.1 hvs
    exact exists_between_parens ht hu fun v hv => ih hls hv

theorem convert_of_rendering {e : Expr} {bare : Option Operator} {ts : List Token}
    (h : Rendering e bare (ts.map Token.lexeme)) (stop : Nat) :
    (empty.convert ts stop).fault = none ∧
      (empty.convert ts stop).last.output.map Token.text = e.postorder := by
  have hy : Waits bare empty := by
    intro o _ t ht
    contradiction
  obtain ⟨z, sent, kept, hlead, hbetween⟩ := exists_between h rfl hy
  have hwaiting : z.waiting = kept := hbetween.waiting.trans (List.append_nil kept)
  have houtput : z.output = sent := hbetween.output
  have hcounts : z.numbers = z.operators + 1 := hbetween.counts
  have hopens : z.waiting.any Token.opens = false := by
    rw [hwaiting, List.any_eq_false]
    intro t ht
    rw [hbetween.kept_opens t ht]
    simp
  obtain ⟨hfault, hlast⟩ := hlead.convert hopens (by omega) stop
  refine ⟨hfault, ?_⟩
  rw [hlast, houtput, hwaiting]
  exact hbetween.postorder

end Yard

/-! ## 6. Texts -/

/-- However an expression is written, it is converted to its postorder. -/
theorem toReversePolish_rendering {e : Expr} {bare : Option Operator} {ls : List Lexeme} {s : String}
    (rendering : Rendering e bare ls) (spelling : Spelling ls s.toList) :
    toReversePolish s = .ok e.postorder := by
  obtain ⟨ts, reading, rfl⟩ := spelling.exists_reading 0
  obtain ⟨hfault, hpostorder⟩ := Yard.convert_of_rendering rendering s.toList.length
  rw [toReversePolish_eq reading, hfault, ← hpostorder]

/-- The power groups to the right, and parentheses may stand where none are called for. -/
theorem toReversePolish_rendering_power :
    ∃ e bare ls, Rendering e bare ls ∧ Spelling ls "((1 -  2.5) )*3 ^4 ^(2.5)".toList ∧
      e.postorder = ["1", "2.5", "-", "3", "4", "2.5", "^", "^", "*"] ∧
      toReversePolish "((1 -  2.5) )*3 ^4 ^(2.5)" = .ok e.postorder := by
  have one : Rendering (.number ⟨'1', [], by decide, by simp⟩) _ _ := .number _
  have two : Rendering (.number ⟨'2', ['.', '5'], by decide, by simp⟩) _ _ := .number _
  have three : Rendering (.number ⟨'3', [], by decide, by simp⟩) _ _ := .number _
  have four : Rendering (.number ⟨'4', [], by decide, by simp⟩) _ _ := .number _
  have left := (Rendering.binary .sub one two (by simp) (by simp)).parens.parens
  have inner := Rendering.binary .pow four two.parens (by simp) (by simp)
  have right := Rendering.binary .pow three inner (by simp) (by
    rintro _ ⟨⟩
    decide)
  have rendering := Rendering.binary .mul left right (by simp) (by
    rintro _ ⟨⟩
    decide)
  have space : ∀ cs : List Char, ∀ c ∈ (' ' :: cs).head?, c = ' ' ∨ c = ')' := by simp
  have closing : ∀ cs : List Char, ∀ c ∈ (')' :: cs).head?, c = ' ' ∨ c = ')' := by simp
  have spelling : Spelling _ "((1 -  2.5) )*3 ^4 ^(2.5)".toList :=
    .opening <| .opening <| .number ⟨'1', [], by decide, by simp⟩ (space _) <| .space <|
      .operator .sub <| .space <| .space <| .number ⟨'2', ['.', '5'], by decide, by simp⟩ (closing _) <|
      .closing <| .space <| .closing <| .operator .mul <|
      .number ⟨'3', [], by decide, by simp⟩ (space _) <| .space <| .operator .pow <|
      .number ⟨'4', [], by decide, by simp⟩ (space _) <| .space <| .operator .pow <| .opening <|
      .number ⟨'2', ['.', '5'], by decide, by simp⟩ (closing _) <| .closing .done
  exact ⟨_, _, _, rendering, spelling, rfl, toReversePolish_rendering rendering spelling⟩

end ReversePolish
