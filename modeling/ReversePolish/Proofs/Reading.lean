import ReversePolish.Token
import Mathlib.Data.List.TakeWhile

/-!
# Reading — the tokens of a text by rules

The rules say which tokens stand at the beginning of a text and where the next ones start.  Every text has
exactly one reading, the one that `scan` finds, and its tokens lie one behind the other.
-/

namespace ReversePolish

/-! ## 1. Rules -/

/-- `Reading pos cs ts`: the text `cs`, whose first character has position `pos`, is read as `ts`. -/
inductive Reading : Nat → List Char → List Token → Prop where
  | done {pos : Nat} : Reading pos [] []
  | space {pos : Nat} {cs : List Char} {ts : List Token} :
      Reading (pos + 1) cs ts → Reading pos (' ' :: cs) ts
  | number {pos : Nat} {d : Char} {run rest : List Char} {ts : List Token} :
      d ∈ digits → (∀ c ∈ run, c ≠ ' ' ∧ c ≠ ')') → (∀ c ∈ rest.head?, c = ' ' ∨ c = ')') →
      Reading (pos + 1 + run.length) rest ts →
      Reading pos (d :: (run ++ rest)) (⟨pos, .number (d :: run)⟩ :: ts)
  | operator {pos : Nat} (op : Operator) {cs : List Char} {ts : List Token} :
      Reading (pos + 1) cs ts → Reading pos (op.char :: cs) (⟨pos, .operator op⟩ :: ts)
  | opening {pos : Nat} {cs : List Char} {ts : List Token} :
      Reading (pos + 1) cs ts → Reading pos ('(' :: cs) (⟨pos, .opening⟩ :: ts)
  | closing {pos : Nat} {cs : List Char} {ts : List Token} :
      Reading (pos + 1) cs ts → Reading pos (')' :: cs) (⟨pos, .closing⟩ :: ts)
  | invalid {pos : Nat} {c : Char} {cs : List Char} {ts : List Token} :
      c ≠ ' ' → c ∉ digits → c ∉ ['+', '-', '*', '/', '^', '(', ')'] →
      Reading (pos + 1) cs ts → Reading pos (c :: cs) (⟨pos, .invalid c⟩ :: ts)

/-! ## 2. Characters -/

theorem continuesNumber_iff {c : Char} : continuesNumber c = true ↔ c ≠ ' ' ∧ c ≠ ')' := by
  simp [continuesNumber, delimiters, separator, closingChar]

theorem continuesNumber_eq_false_iff {c : Char} :
    continuesNumber c = false ↔ c = ' ' ∨ c = ')' := by
  rw [← Bool.not_eq_true, continuesNumber_iff, not_and_or, not_not, not_not]

theorem Operator.char_ne_separator (op : Operator) : op.char ≠ separator := by
  cases op <;> decide

theorem Operator.char_notMem_digits (op : Operator) : op.char ∉ digits := by
  cases op <;> decide

theorem Lexeme.single_char (op : Operator) : single op.char = operator op := by
  rw [single, Operator.ofChar?_char]

theorem Operator.ofChar?_of_notMem {c : Char} (h : c ∉ ['+', '-', '*', '/', '^', '(', ')']) :
    ofChar? c = none := by
  rw [ofChar?, List.find?_eq_none]
  intro op _ hc
  rw [decide_eq_true_eq] at hc
  subst hc
  cases op <;> simp [char] at h

theorem Operator.ofSymbol?_singleton (c : Char) : ofSymbol? (String.singleton c) = ofChar? c := by
  simp only [ofSymbol?, ofChar?, symbol, String.singleton_inj]

theorem Lexeme.single_of_notMem {c : Char} (h : c ∉ ['+', '-', '*', '/', '^', '(', ')']) :
    single c = invalid c := by
  have hop := Operator.ofChar?_of_notMem h
  simp only [List.mem_cons, List.not_mem_nil, or_false, not_or] at h
  rw [single, hop]
  simp [openingChar, closingChar, h]

/-! ## 3. Numbers -/

section

variable {run rest : List Char}

theorem numberRun_append (hrun : ∀ c ∈ run, c ≠ ' ' ∧ c ≠ ')')
    (hrest : ∀ c ∈ rest.head?, c = ' ' ∨ c = ')') : numberRun (run ++ rest) = run := by
  have hall : ∀ c ∈ run, continuesNumber c = true := fun c hc => continuesNumber_iff.2 (hrun c hc)
  rw [numberRun, List.takeWhile_append_of_pos hall]
  cases rest with
  | nil => simp
  | cons c cs =>
    have hc : continuesNumber c = false := continuesNumber_eq_false_iff.2 (hrest c (by simp))
    rw [List.takeWhile_cons_of_neg (by simp [hc]), List.append_nil]

theorem afterNumber_append (hrun : ∀ c ∈ run, c ≠ ' ' ∧ c ≠ ')')
    (hrest : ∀ c ∈ rest.head?, c = ' ' ∨ c = ')') : afterNumber (run ++ rest) = rest := by
  have h := numberRun_append_afterNumber (run ++ rest)
  rw [numberRun_append hrun hrest] at h
  exact List.append_cancel_left h

end

theorem forall_mem_numberRun (cs : List Char) : ∀ c ∈ numberRun cs, c ≠ ' ' ∧ c ≠ ')' := by
  intro c hc
  exact continuesNumber_iff.1 (List.mem_takeWhile_imp hc)

theorem head?_afterNumber (cs : List Char) : ∀ c ∈ (afterNumber cs).head?, c = ' ' ∨ c = ')' := by
  intro c hc
  have h := List.head?_dropWhile_not continuesNumber cs
  rw [← afterNumber, Option.mem_def.1 hc] at h
  exact continuesNumber_eq_false_iff.1 h

/-! ## 4. The one reading of a text -/

theorem reading_scan (pos : Nat) (cs : List Char) : Reading pos cs (scan pos cs) := by
  -- the branches of `scan` are the rules, but it looks for an operator before it looks for a parenthesis
  fun_induction scan pos cs with
  | case1 => exact .done
  | case2 pos rest ih => exact .space ih
  | case3 pos d rest _ hd ih =>
    have h := Reading.number hd (forall_mem_numberRun rest) (head?_afterNumber rest) ih
    rwa [numberRun_append_afterNumber] at h
  | case4 pos c rest hspace hdigit ih =>
    by_cases hc : c ∈ ['+', '-', '*', '/', '^', '(', ')']
    · simp only [List.mem_cons, List.not_mem_nil, or_false] at hc
      rcases hc with rfl | rfl | rfl | rfl | rfl | rfl | rfl
      · exact .operator .add ih
      · exact .operator .sub ih
      · exact .operator .mul ih
      · exact .operator .div ih
      · exact .operator .pow ih
      · exact .opening ih
      · exact .closing ih
    · rw [Lexeme.single_of_notMem hc]
      exact .invalid hspace hdigit hc ih

theorem Reading.eq_scan {pos : Nat} {cs : List Char} {ts : List Token} (h : Reading pos cs ts) :
    ts = scan pos cs := by
  induction h with
  | done => rw [scan]
  | space _ ih => rw [scan, if_pos (by rfl), ih]
  | @number pos d run rest ts hd hrun hrest _ ih =>
    -- no digit separates, so `scan` gets to the branch of numbers
    have hne : d ≠ separator := fun he => absurd (he ▸ hd) (by decide)
    rw [scan, if_neg hne, if_pos hd, numberRun_append hrun hrest, afterNumber_append hrun hrest, ih]
  | @operator pos op cs ts _ ih =>
    rw [scan, if_neg op.char_ne_separator, if_neg op.char_notMem_digits, Lexeme.single_char, ih]
  | opening _ ih => rw [scan, if_neg (by decide), if_neg (by decide), ih]; rfl
  | closing _ ih => rw [scan, if_neg (by decide), if_neg (by decide), ih]; rfl
  | invalid hspace hdigit hc _ ih =>
    rw [scan, if_neg (by exact hspace), if_neg hdigit, Lexeme.single_of_notMem hc, ih]

theorem reading_iff {pos : Nat} {cs : List Char} {ts : List Token} (h : Reading pos cs ts)
    (us : List Token) : Reading pos cs us ↔ us = ts := by
  constructor
  · intro hus
    rw [hus.eq_scan, h.eq_scan]
  · rintro rfl
    exact h

/-! ## 5. One token after the other -/

/-- `l.Stands rest`: the lexeme `l` stands in a text with the characters `rest` behind it.  A number goes on
until one of them ends it. -/
inductive Lexeme.Stands : Lexeme → List Char → Prop where
  | number {d : Char} {run rest : List Char} :
      d ∈ digits → (∀ c ∈ run, c ≠ ' ' ∧ c ≠ ')') → (∀ c ∈ rest.head?, c = ' ' ∨ c = ')') →
      Stands (.number (d :: run)) rest
  | operator {op : Operator} {rest : List Char} : Stands (.operator op) rest
  | opening {rest : List Char} : Stands .opening rest
  | closing {rest : List Char} : Stands .closing rest
  | invalid {c : Char} {rest : List Char} :
      c ≠ ' ' → c ∉ digits → c ∉ ['+', '-', '*', '/', '^', '(', ')'] → Stands (.invalid c) rest

theorem Lexeme.Stands.of_head? {l : Lexeme} {rest rest' : List Char} (h : l.Stands rest)
    (hrest : ∀ c ∈ rest'.head?, c ∈ rest.head? ∨ c = ' ' ∨ c = ')') : l.Stands rest' := by
  cases h with
  | number hd hrun hend =>
    refine .number hd hrun fun c hc => ?_
    rcases hrest c hc with hc | hc
    · exact hend c hc
    · exact hc
  | operator => exact .operator
  | opening => exact .opening
  | closing => exact .closing
  | invalid hspace hdigit hc => exact .invalid hspace hdigit hc

theorem Lexeme.Stands.chars_ne_nil {l : Lexeme} {rest : List Char} (h : l.Stands rest) : l.chars ≠ [] := by
  cases h <;> simp [Lexeme.chars]

namespace Reading

variable {pos : Nat} {cs spaces rest : List Char} {ts : List Token} {t : Token}

theorem spaces_append (hspaces : ∀ c ∈ spaces, c = ' ') (h : Reading (pos + spaces.length) rest ts) :
    Reading pos (spaces ++ rest) ts := by
  induction spaces generalizing pos with
  | nil => exact h
  | cons c spaces ih =>
    rw [hspaces c (by simp)]
    rw [List.length_cons, Nat.add_comm spaces.length, ← Nat.add_assoc] at h
    exact .space (ih (fun c hc => hspaces c (by simp [hc])) h)

-- Spaces, a token, and what is read from its end.
theorem cons (hspaces : ∀ c ∈ spaces, c = ' ') (hstart : t.start = pos + spaces.length)
    (hstands : t.lexeme.Stands rest) (h : Reading t.stop rest ts) :
    Reading pos (spaces ++ (t.lexeme.chars ++ rest)) (t :: ts) := by
  apply spaces_append hspaces
  rw [← hstart]
  obtain ⟨start, lexeme⟩ := t
  unfold Token.stop at h
  cases hstands with
  | @number d run rest hd hrun hrest =>
    rw [Lexeme.chars, List.length_cons, Nat.add_comm run.length, ← Nat.add_assoc] at h
    exact .number hd hrun hrest h
  | operator => exact .operator _ h
  | opening => exact .opening h
  | closing => exact .closing h
  | invalid hspace hdigit hc => exact .invalid hspace hdigit hc h

theorem exists_cons (h : Reading pos cs (t :: ts)) :
    ∃ spaces rest, cs = spaces ++ (t.lexeme.chars ++ rest) ∧ (∀ c ∈ spaces, c = ' ') ∧
      t.start = pos + spaces.length ∧ t.lexeme.Stands rest ∧ Reading t.stop rest ts := by
  generalize hus : t :: ts = us at h
  induction h with
  | done => contradiction
  | @space pos cs us _ ih =>
    obtain ⟨spaces, rest, rfl, hspaces, hstart, hstands, hrest⟩ := ih hus
    refine ⟨' ' :: spaces, rest, rfl, ?_, ?_, hstands, hrest⟩
    · simpa using hspaces
    · rw [List.length_cons]
      omega
  | @number pos d run rest us hd hrun hend hrest _ =>
    cases hus
    refine ⟨[], rest, rfl, by simp, rfl, .number hd hrun hend, ?_⟩
    rwa [Nat.add_right_comm, Nat.add_assoc] at hrest
  | operator op hrest _ =>
    cases hus
    exact ⟨[], _, rfl, by simp, rfl, .operator, hrest⟩
  | opening hrest _ =>
    cases hus
    exact ⟨[], _, rfl, by simp, rfl, .opening, hrest⟩
  | closing hrest _ =>
    cases hus
    exact ⟨[], _, rfl, by simp, rfl, .closing, hrest⟩
  | invalid hspace hdigit hc hrest _ =>
    cases hus
    exact ⟨[], _, rfl, by simp, rfl, .invalid hspace hdigit hc, hrest⟩

-- Where no token is left, only spaces are.
theorem eq_space_of_nil (h : Reading pos cs []) : ∀ c ∈ cs, c = ' ' := by
  generalize hus : [] = us at h
  induction h with
  | done => simp
  | space _ ih => simpa using ih hus
  | _ => contradiction

-- Tokens end where a space or a closing parenthesis follows, so what stands behind it does not change them.
theorem append {back : List Char} {us : List Token} (h : Reading pos cs ts)
    (hhead : ∀ c ∈ back.head?, c = ' ' ∨ c = ')') (hback : Reading (pos + cs.length) back us) :
    Reading pos (cs ++ back) (ts ++ us) := by
  induction ts generalizing pos cs with
  | nil => exact spaces_append h.eq_space_of_nil hback
  | cons t ts ih =>
    obtain ⟨spaces, rest, rfl, hspaces, hstart, hstands, hrest⟩ := h.exists_cons
    have hplace : pos + (spaces ++ (t.lexeme.chars ++ rest)).length = t.stop + rest.length := by
      rw [Token.stop, hstart, List.length_append, List.length_append]
      omega
    rw [hplace] at hback
    rw [List.append_assoc, List.append_assoc]
    refine cons hspaces hstart (hstands.of_head? ?_) (ih hrest hback)
    intro c hc
    cases rest with
    | nil => exact .inr (hhead c hc)
    | cons d rest => exact .inl hc

end Reading

/-! ## 6. Places -/

/-- The tokens `ts` are not empty and lie one behind the other from position `p` up to position `q`. -/
def InOrder (p q : Nat) : List Token → Prop
  | [] => p ≤ q
  | t :: ts => p ≤ t.start ∧ t.start < t.stop ∧ InOrder t.stop q ts

theorem InOrder.le {p q : Nat} {ts : List Token} (h : InOrder p q ts) : p ≤ q := by
  induction ts generalizing p with
  | nil => exact h
  | cons t ts ih =>
    have := ih h.2.2
    have := h.1
    have := h.2.1
    omega

theorem InOrder.mono {p p' q : Nat} {ts : List Token} (h : InOrder p q ts) (hp : p' ≤ p) :
    InOrder p' q ts := by
  cases ts with
  | nil => exact Nat.le_trans hp h
  | cons t ts => exact ⟨Nat.le_trans hp h.1, h.2⟩

theorem InOrder.mono_right {p q q' : Nat} {ts : List Token} (h : InOrder p q ts) (hq : q ≤ q') :
    InOrder p q' ts := by
  induction ts generalizing p with
  | nil => exact Nat.le_trans h hq
  | cons t ts ih => exact ⟨h.1, h.2.1, ih h.2.2⟩

theorem InOrder.le_start {p q : Nat} {ts : List Token} (h : InOrder p q ts) : ∀ t ∈ ts, p ≤ t.start := by
  induction ts generalizing p with
  | nil => simp
  | cons t ts ih =>
    obtain ⟨hstart, hstop, horder⟩ := h
    intro u hu
    rcases List.mem_cons.1 hu with rfl | hu
    · exact hstart
    · have := ih horder u hu
      omega

theorem InOrder.lt_stop {p q : Nat} {ts : List Token} (h : InOrder p q ts) : ∀ t ∈ ts, p < t.stop := by
  induction ts generalizing p with
  | nil => simp
  | cons t ts ih =>
    obtain ⟨hstart, hstop, horder⟩ := h
    intro u hu
    rcases List.mem_cons.1 hu with rfl | hu
    · omega
    · have := ih horder u hu
      omega

theorem InOrder.stop_le {p q : Nat} {ts : List Token} (h : InOrder p q ts) : ∀ t ∈ ts, t.stop ≤ q := by
  induction ts generalizing p with
  | nil => simp
  | cons t ts ih =>
    intro u hu
    rcases List.mem_cons.1 hu with rfl | hu
    · exact h.2.2.le
    · exact ih h.2.2 u hu

theorem InOrder.exists_append {p q : Nat} {ts us : List Token} (h : InOrder p q (ts ++ us)) :
    ∃ m, InOrder p m ts ∧ InOrder m q us := by
  induction ts generalizing p with
  | nil => exact ⟨p, Nat.le_refl _, h⟩
  | cons t ts ih =>
    obtain ⟨hstart, hstop, horder⟩ := h
    obtain ⟨m, hts, hus⟩ := ih horder
    exact ⟨m, ⟨hstart, hstop, hts⟩, hus⟩

-- The tokens up to the end of one of them are those before it and itself.
theorem InOrder.filter_stop_le {p q : Nat} {before after : List Token} {t : Token}
    (h : InOrder p q (before ++ t :: after)) :
    (before ++ t :: after).filter (fun u => u.stop ≤ t.stop) = before ++ [t] := by
  induction before generalizing p with
  | nil =>
    have hafter : after.filter (fun u => u.stop ≤ t.stop) = [] := by
      rw [List.filter_eq_nil_iff]
      intro u hu
      have := h.2.2.lt_stop u hu
      simp
      omega
    rw [List.nil_append, List.filter_cons_of_pos (by simp), hafter, List.nil_append]
  | cons u before ih =>
    have hu := h.2.2.lt_stop t (by simp)
    rw [List.cons_append, List.filter_cons_of_pos (by simp; omega), ih h.2.2, List.cons_append]

theorem Reading.inOrder {pos : Nat} {cs : List Char} {ts : List Token} (h : Reading pos cs ts) :
    InOrder pos (pos + cs.length) ts := by
  induction h with
  | done => exact Nat.le_refl _
  | space _ ih =>
    rw [List.length_cons, show ∀ n m : Nat, n + (m + 1) = n + 1 + m by omega]
    exact ih.mono (by omega)
  | @number pos d run rest ts _ _ _ _ ih =>
    -- the digit alone makes the token longer than nothing
    refine ⟨Nat.le_refl _, ?_, ?_⟩
    · simp [Token.stop, Lexeme.chars]
    · simp only [Token.stop, Lexeme.chars, List.length_cons, List.length_append]
      rwa [show pos + (run.length + 1) = pos + 1 + run.length by omega,
        show pos + (run.length + rest.length + 1) = pos + 1 + run.length + rest.length by omega]
  | @operator pos op cs ts _ ih | @opening pos cs ts _ ih | @closing pos cs ts _ ih
  | @invalid pos c cs ts _ _ _ _ ih =>
    refine ⟨Nat.le_refl _, Nat.lt_succ_self _, ?_⟩
    rw [List.length_cons, show pos + (cs.length + 1) = pos + 1 + cs.length by omega]
    exact ih

end ReversePolish
