import Mathlib
import ReversePolish.Event
import ReversePolish.Proofs.Quotation

/-!
# Display — a written event tells what happened

The log and a message write an event in words, with the strings of arbitrary tokens inside.  Whatever these
strings look like, the message of the log tells the token, what was done with it and what the output and the
stack hold, and the other form the position, too.
-/

namespace ReversePolish

/-! ## 1. Words and numbers -/

-- A word without the character that follows it ends there.
theorem word_append_inj {d : Char} {l l' r r' : List Char} (hl : d ∉ l) (hl' : d ∉ l')
    (h : l ++ d :: r = l' ++ d :: r') : l = l' ∧ r = r' := by
  induction l generalizing l' with
  | nil =>
    cases l' with
    | nil => exact ⟨rfl, (List.cons.inj h).2⟩
    | cons c l' =>
      cases h
      exact absurd List.mem_cons_self hl'
  | cons c l ih =>
    cases l' with
    | nil =>
      cases h
      exact absurd List.mem_cons_self hl
    | cons c' l' =>
      obtain ⟨rfl, hrest⟩ := List.cons.inj h
      obtain ⟨rfl, hr⟩ := ih (fun hmem => hl (.tail _ hmem)) (fun hmem => hl' (.tail _ hmem)) hrest
      exact ⟨rfl, hr⟩

theorem space_notMem_toString (n : Int) : ' ' ∉ (toString n).toList := by
  have hnat : ∀ m : Nat, ' ' ∉ m.repr.toList := by
    intro m hmem
    rw [Nat.toList_repr] at hmem
    have hdigit := Nat.isDigit_of_mem_toDigits (by decide) (by decide) hmem
    contradiction
  cases n with
  | ofNat m => exact hnat m
  | negSucc m =>
    show ' ' ∉ ("-" ++ (m + 1).repr).toList
    rw [String.toList_append, List.mem_append, not_or]
    exact ⟨by decide, hnat _⟩

namespace Action

variable {a b : Action} (ha : ∀ label, a ≠ .other label) (hb : ∀ label, b ≠ .other label)

include ha

theorem notMem_label {c : Char} (hc : c = ' ' ∨ c = ')') : c ∉ a.label.toList := by
  cases a with
  | other label => exact absurd rfl (ha label)
  | number | opening | closing | operator | drain => rcases hc with rfl | rfl <;> decide

include hb

-- A label that a space or a closing parenthesis follows says where it ends, and each action has its own.
theorem label_append_inj {c : Char} {r r' : List Char} (hc : c = ' ' ∨ c = ')')
    (h : a.label.toList ++ c :: r = b.label.toList ++ c :: r') : a = b ∧ r = r' := by
  obtain ⟨hlabel, hrest⟩ := word_append_inj (notMem_label ha hc) (notMem_label hb hc) h
  refine ⟨?_, hrest⟩
  rw [← ofLabel_label ha, ← ofLabel_label hb, String.toList_inj.1 hlabel]

end Action

/-! ## 2. Events -/

namespace Event

variable {a b : Event} {r r' : List Char}

theorem toList_containers (e : Event) :
    e.containers.toList = "output=".toList ++ ((Text.quotedList e.output).toList ++
      (" stack=".toList ++ (Text.quotedList e.stack.reverse).toList)) := by
  simp only [containers, String.toList_append, List.append_assoc]

theorem containers_append_inj (h : a.containers.toList ++ r = b.containers.toList ++ r') :
    a.output = b.output ∧ a.stack = b.stack ∧ r = r' := by
  rw [toList_containers, toList_containers] at h
  simp only [List.append_assoc, List.append_cancel_left_eq] at h
  obtain ⟨houtput, hrest⟩ := Text.quotedList_append_inj h
  obtain ⟨hstack, hr⟩ := Text.quotedList_append_inj (List.append_cancel_left hrest)
  exact ⟨houtput, List.reverse_inj.1 hstack, hr⟩

theorem toList_logMessage (e : Event) :
    e.logMessage.toList = "on token ".toList ++ (Text.quotedChars e.token.toList ++
      (" (".toList ++ (e.action.label.toList ++ ')' :: (": ".toList ++ e.containers.toList)))) := by
  simp only [logMessage, String.toList_append, List.append_assoc, Text.toList_quoted]
  rfl

theorem toList_display (e : Event) :
    e.display.toList = "<Step ".toList ++ (e.action.label.toList ++ ' ' :: (Text.quotedChars e.token.toList ++
      (" @".toList ++ ((toString e.position).toList ++ ' ' :: (e.containers.toList ++ ['>']))))) := by
  simp only [display, String.toList_append, List.append_assoc, Text.toList_quoted]
  rfl

/-- Two events whose messages in the log are equal are about the same token, action, output and stack, and two
events whose other written forms are equal are equal. -/
theorem written_injective (ha : ∀ label, a.action ≠ .other label) (hb : ∀ label, b.action ≠ .other label) :
    (a.logMessage = b.logMessage →
      a.token = b.token ∧ a.action = b.action ∧ a.output = b.output ∧ a.stack = b.stack) ∧
    (a.display = b.display → a = b) := by
  constructor
  · intro h
    have hchars := congrArg String.toList h
    rw [toList_logMessage, toList_logMessage] at hchars
    obtain ⟨htoken, hbehind⟩ := Text.quotedChars_append_inj (List.append_cancel_left hchars)
    obtain ⟨haction, hrest⟩ := Action.label_append_inj ha hb (.inr rfl) (List.append_cancel_left hbehind)
    have hcontainers := List.append_cancel_left hrest
    rw [← List.append_nil a.containers.toList, ← List.append_nil b.containers.toList] at hcontainers
    obtain ⟨houtput, hstack, -⟩ := containers_append_inj hcontainers
    exact ⟨String.toList_inj.1 htoken, haction, houtput, hstack⟩
  · intro h
    have hchars := congrArg String.toList h
    rw [toList_display, toList_display] at hchars
    obtain ⟨haction, hbehind⟩ := Action.label_append_inj ha hb (.inl rfl) (List.append_cancel_left hchars)
    obtain ⟨htoken, hplace⟩ := Text.quotedChars_append_inj hbehind
    obtain ⟨hnumber, hrest⟩ := word_append_inj (space_notMem_toString a.position)
      (space_notMem_toString b.position) (List.append_cancel_left hplace)
    obtain ⟨houtput, hstack, -⟩ := containers_append_inj hrest
    have hposition : a.position = b.position := Int.repr_inj.1 (String.toList_inj.1 hnumber)
    cases a
    cases b
    rw [Event.mk.injEq]
    exact ⟨hposition, String.toList_inj.1 htoken, haction, houtput, hstack⟩

/-- A number that holds both marks, a backslash and what could be the rest of a message. -/
def puzzling : Event :=
  ⟨4, "2\x22 (number): output=['\\x27 \\'", .number, ["3', '", "\t"], ["-", "("]⟩

/-- Only the second form tells the event from the same one at another position. -/
theorem written_injective_puzzling :
    (∀ label, puzzling.action ≠ .other label) ∧
      (∀ label, { puzzling with position := 7 }.action ≠ .other label) ∧
      puzzling.logMessage = { puzzling with position := 7 }.logMessage ∧
      puzzling.output = { puzzling with position := 7 }.output ∧
      puzzling.display ≠ { puzzling with position := 7 }.display := by
  have haction : ∀ label, puzzling.action ≠ .other label := by simp [puzzling]
  obtain ⟨hlog, hdisplay⟩ := written_injective (b := { puzzling with position := 7 }) haction haction
  have hmessage : puzzling.logMessage = { puzzling with position := 7 }.logMessage := rfl
  refine ⟨haction, haction, hmessage, (hlog hmessage).2.2.1, fun h => ?_⟩
  exact absurd (congrArg Event.position (hdisplay h)) (by decide)

end Event

end ReversePolish
