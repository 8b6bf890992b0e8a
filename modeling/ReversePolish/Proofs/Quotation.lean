import Mathlib.Data.List.Basic
import Mathlib.Tactic.IntervalCases
import ReversePolish.Text.Quoted

/-!
# Quotation — a quoted string says where it ends

From the beginning of a text one can tell which character is written there and what follows it, whatever the
mark.  No character is written with the mark in front.  So equal texts that begin with a quoted string, or with
a list of quoted strings, begin with the same one and go on in the same way.
-/

namespace ReversePolish.Text

/-! ## 1. Codes -/

def digitValue (d : Char) : Nat :=
  if d.isDigit then d.toNat - '0'.toNat else d.toNat - 'a'.toNat + 10

/-- The number that hexadecimal digits stand for, the highest first. -/
def hexValue (ds : List Char) : Nat :=
  ds.foldl (fun n d => 16 * n + digitValue d) 0

theorem digitValue_digitChar {n : Nat} (h : n < 16) : digitValue (Nat.digitChar n) = n := by
  interval_cases n <;> decide

theorem length_hexDigits (width n : Nat) : (hexDigits width n).length = width := by
  induction width generalizing n with
  | zero => rfl
  | succ width ih => rw [hexDigits, List.length_append, ih, List.length_singleton]

theorem hexValue_hexDigits (width n : Nat) : hexValue (hexDigits width n) = n % 16 ^ width := by
  induction width generalizing n with
  | zero => rw [Nat.pow_zero, Nat.mod_one]; rfl
  | succ width ih =>
    have hlast : digitValue (Nat.digitChar (n % 16)) = n % 16 := digitValue_digitChar (Nat.mod_lt n (by decide))
    have hfront := ih (n / 16)
    unfold hexValue at hfront ⊢
    rw [hexDigits, List.foldl_append, hfront, List.foldl_cons, List.foldl_nil, hlast, Nat.pow_succ',
      Nat.mod_mul, Nat.add_comm]

theorem hexValue_hexDigits_of_lt {width n : Nat} (h : n < 16 ^ width) : hexValue (hexDigits width n) = n := by
  rw [hexValue_hexDigits, Nat.mod_eq_of_lt h]

/-! ## 2. One character -/

/-- The number of digits of a code, by the letter in front of them. -/
def codeWidth? (letter : Char) : Option Nat :=
  if letter = 'x' then some 2
  else if letter = 'u' then some 4
  else if letter = 'U' then some 8
  else none

/-- The character for which a letter behind a backslash stands; any other stands for itself. -/
def letterChar (letter : Char) : Char :=
  if letter = 't' then '\t' else if letter = 'n' then '\n' else if letter = 'r' then '\r' else letter

/-- The character that is written behind a backslash, and what follows it. -/
def readLetter : List Char → Option (Char × List Char)
  | [] => none
  | letter :: rest =>
    match codeWidth? letter with
    | some width => some (Char.ofNat (hexValue (rest.take width)), rest.drop width)
    | none => some (letterChar letter, rest)

/-- The character that is written at the beginning of a text, and what follows it. -/
def readChar : List Char → Option (Char × List Char)
  | [] => none
  | c :: rest => if c = '\\' then readLetter rest else some (c, rest)

theorem readLetter_code {c letter : Char} {width : Nat} (hletter : codeWidth? letter = some width)
    (hc : c.toNat < 16 ^ width) (rest : List Char) :
    readLetter (letter :: (hexDigits width c.toNat ++ rest)) = some (c, rest) := by
  have hlength := length_hexDigits width c.toNat
  rw [readLetter, hletter]
  dsimp only
  rw [List.take_left' hlength, List.drop_left' hlength, hexValue_hexDigits_of_lt hc, Char.ofNat_toNat]

theorem readChar_charCode (c : Char) (rest : List Char) : readChar (charCode c ++ rest) = some (c, rest) := by
  have hx : codeWidth? 'x' = some 2 := rfl
  have hu : codeWidth? 'u' = some 4 := rfl
  have hU : codeWidth? 'U' = some 8 := rfl
  unfold charCode
  split
  · exact readLetter_code hx (by assumption) rest
  split
  · exact readLetter_code hu (by assumption) rest
  · exact readLetter_code hU c.val.toNat_lt rest

section

variable {mark : Char} (hmark : mark = singleQuote ∨ mark = doubleQuote)

include hmark

theorem readChar_escaped (c : Char) (rest : List Char) :
    readChar (escaped mark c ++ rest) = some (c, rest) := by
  unfold escaped
  split
  · -- neither a mark nor a backslash is the letter of a code
    rename_i hc
    rcases hc with rfl | rfl
    · rcases hmark with rfl | rfl <;> rfl
    · rfl
  split
  · rename_i hc
    rw [hc]
    rfl
  split
  · rename_i hc
    rw [hc]
    rfl
  split
  · rename_i hc
    rw [hc]
    rfl
  split
  · rename_i hc _ _ _ _
    exact if_neg fun he => hc (.inr he)
  · exact readChar_charCode c rest

theorem ne_backslash : mark ≠ '\\' := by
  rcases hmark with rfl | rfl <;> decide

-- What begins with the mark would be read as the mark, but the mark is written with a backslash in front.
theorem escaped_append_ne (c : Char) (rest r : List Char) : escaped mark c ++ rest ≠ mark :: r := by
  intro h
  have hread := readChar_escaped hmark c rest
  rw [h, readChar, if_neg (ne_backslash hmark)] at hread
  cases hread
  rw [escaped, if_pos (.inl rfl)] at h
  exact ne_backslash hmark (List.cons.inj h).1.symm

/-! ## 3. Strings -/

theorem escaped_append_inj {s t r r' : List Char}
    (h : s.flatMap (escaped mark) ++ mark :: r = t.flatMap (escaped mark) ++ mark :: r') :
    s = t ∧ r = r' := by
  induction s generalizing t with
  | nil =>
    cases t with
    | nil => exact ⟨rfl, (List.cons.inj h).2⟩
    | cons d t =>
      rw [List.flatMap_cons, List.append_assoc] at h
      exact absurd h.symm (escaped_append_ne hmark d _ r)
  | cons c s ih =>
    rw [List.flatMap_cons, List.append_assoc] at h
    cases t with
    | nil => exact absurd h (escaped_append_ne hmark c _ r')
    | cons d t =>
      rw [List.flatMap_cons, List.append_assoc] at h
      have hread := readChar_escaped hmark c (s.flatMap (escaped mark) ++ mark :: r)
      rw [h, readChar_escaped hmark d, Option.some.injEq, Prod.mk.injEq] at hread
      obtain ⟨rfl, hrest⟩ := hread
      obtain ⟨rfl, hr⟩ := ih hrest.symm
      exact ⟨rfl, hr⟩

end

theorem quoteMark_cases (s : List Char) : quoteMark s = singleQuote ∨ quoteMark s = doubleQuote := by
  unfold quoteMark
  split
  · exact .inr rfl
  · exact .inl rfl

theorem quotedChars_append_inj {s t r r' : List Char} (h : quotedChars s ++ r = quotedChars t ++ r') :
    s = t ∧ r = r' := by
  simp only [quotedChars, List.cons_append, List.append_assoc, List.nil_append, List.cons.injEq] at h
  obtain ⟨hmark, hrest⟩ := h
  rw [← hmark] at hrest
  exact escaped_append_inj (quoteMark_cases s) hrest

/-! ## 4. Lists -/

/-- What stands behind an item of a list, when the items `rest` follow. -/
def behindItem : List String → List Char
  | [] => [']']
  | s :: rest => ',' :: ' ' :: (quotedChars s.toList ++ behindItem rest)

theorem toList_quoted (s : String) : (quoted s).toList = quotedChars s.toList := String.toList_ofList

theorem toList_intercalate_quoted (s : String) (rest : List String) :
    (", ".intercalate ((s :: rest).map quoted)).toList ++ [']'] = quotedChars s.toList ++ behindItem rest := by
  induction rest generalizing s with
  | nil => rw [List.map_singleton, String.intercalate_singleton, toList_quoted, behindItem]
  | cons t rest ih =>
    have ht := ih t
    rw [List.map_cons] at ht ⊢
    rw [List.map_cons, String.intercalate_cons_cons, String.toList_append, String.toList_append, toList_quoted,
      List.append_assoc, List.append_assoc, ht]
    rfl

theorem toList_quotedList_nil : (quotedList []).toList = ['[', ']'] := by decide

theorem toList_quotedList_cons (s : String) (rest : List String) :
    (quotedList (s :: rest)).toList = '[' :: (quotedChars s.toList ++ behindItem rest) := by
  rw [← toList_intercalate_quoted, quotedList, bracketed, String.toList_append, String.toList_append,
    List.append_assoc]
  rfl

theorem behindItem_append_inj {as bs : List String} {r r' : List Char}
    (h : behindItem as ++ r = behindItem bs ++ r') : as = bs ∧ r = r' := by
  induction as generalizing bs with
  | nil =>
    cases bs with
    | nil => exact ⟨rfl, (List.cons.inj h).2⟩
    | cons t bs => simp [behindItem] at h
  | cons s as ih =>
    cases bs with
    | nil => simp [behindItem] at h
    | cons t bs =>
      simp only [behindItem, List.cons_append, List.append_assoc, List.cons.injEq, true_and] at h
      obtain ⟨hs, hrest⟩ := quotedChars_append_inj h
      obtain ⟨rfl, hr⟩ := ih hrest
      exact ⟨by rw [String.toList_inj.1 hs], hr⟩

-- An item begins with a mark, which is not what closes a list.
theorem quotedChars_append_ne (s r r' : List Char) : quotedChars s ++ r ≠ ']' :: r' := by
  intro h
  rcases quoteMark_cases s with hmark | hmark
  all_goals
    rw [quotedChars, hmark] at h
    exact absurd (List.cons.inj h).1 (by decide)

theorem quotedList_cons_append_ne (s : String) (rest : List String) (r r' : List Char) :
    (quotedList (s :: rest)).toList ++ r ≠ (quotedList []).toList ++ r' := by
  intro h
  rw [toList_quotedList_nil, toList_quotedList_cons] at h
  simp only [List.cons_append, List.append_assoc, List.nil_append, List.cons.injEq, true_and] at h
  exact quotedChars_append_ne _ _ _ h

theorem quotedList_append_inj {as bs : List String} {r r' : List Char}
    (h : (quotedList as).toList ++ r = (quotedList bs).toList ++ r') : as = bs ∧ r = r' := by
  cases as with
  | nil =>
    cases bs with
    | nil => exact ⟨rfl, List.append_cancel_left h⟩
    | cons t bs => exact absurd h.symm (quotedList_cons_append_ne t bs r' r)
  | cons s as =>
    cases bs with
    | nil => exact absurd h (quotedList_cons_append_ne s as r r')
    | cons t bs =>
      rw [toList_quotedList_cons, toList_quotedList_cons] at h
      simp only [List.cons_append, List.append_assoc, List.cons.injEq, true_and] at h
      obtain ⟨hs, hrest⟩ := quotedChars_append_inj h
      obtain ⟨rfl, hr⟩ := behindItem_append_inj hrest
      exact ⟨by rw [String.toList_inj.1 hs], hr⟩

end ReversePolish.Text
