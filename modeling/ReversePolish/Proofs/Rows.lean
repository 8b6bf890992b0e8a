import Mathlib.Data.List.Basic
import ReversePolish.Report
import ReversePolish.Proofs.Refusal
import ReversePolish.Proofs.Tiling

/-!
# Rows — a report loses nothing of the events

A row shows the output and the stack as one cell each, with spaces between the strings.  No token is empty or
holds a space, so a cell can be cut into its strings again, and the rows of a report read back as the events.
-/

namespace ReversePolish

/-! ## 1. Cells -/

/-- The strings that a cell shows, cut at each single space; the empty cell shows none. -/
def words (cell : String) : List String :=
  if cell = "" then [] else (cell.toList.splitOn ' ').map String.ofList

/-- A string that is found again between spaces: there is something of it, and no space in it. -/
structure Separable (s : String) : Prop where
  ne_empty : s ≠ ""
  space_notMem : ' ' ∉ s.toList

theorem splitOn_spaced {items : List String} (h : ∀ s ∈ items, Separable s) (hne : items ≠ []) :
    (spaced items).toList.splitOn ' ' = items.map String.toList := by
  rw [spaced, String.toList_intercalate]
  refine List.splitOn_intercalate ' ' ?_ (by simpa using hne)
  intro l hl
  obtain ⟨s, hs, rfl⟩ := List.mem_map.1 hl
  exact (h s hs).space_notMem

theorem words_spaced {items : List String} (h : ∀ s ∈ items, Separable s) : words (spaced items) = items := by
  by_cases hitems : items = []
  · rw [hitems]
    rfl
  have hsplit := splitOn_spaced h hitems
  -- an empty cell would show one string, the empty one
  have hne : spaced items ≠ "" := by
    intro hempty
    rw [hempty, String.toList_empty, List.splitOn_nil] at hsplit
    obtain ⟨s, hs, hnil⟩ : ∃ s ∈ items, s.toList = [] := by
      rw [← List.mem_map, ← hsplit]
      exact List.mem_singleton_self _
    exact (h s hs).ne_empty (String.toList_eq_nil_iff.1 hnil)
  rw [words, if_neg hne, hsplit, List.map_map]
  simp [Function.comp_def]

/-! ## 2. Strings of a conversion -/

theorem Lexeme.Stands.space_notMem_chars {l : Lexeme} {rest : List Char} (h : l.Stands rest) : ' ' ∉ l.chars := by
  cases h with
  | number hd hrun _ =>
    have hdigit := continuesNumber_iff.1 (continuesNumber_of_mem_digits hd)
    rw [Lexeme.chars, List.mem_cons, not_or]
    exact ⟨hdigit.1.symm, fun hmem => (hrun _ hmem).1 rfl⟩
  | @operator op =>
    rw [Lexeme.chars, List.mem_singleton]
    exact op.char_ne_separator.symm
  | opening => decide
  | closing => decide
  | invalid hspace _ _ => simpa [Lexeme.chars] using hspace.symm

theorem Token.separable_text {t : Token} {rest : List Char} (h : t.lexeme.Stands rest) : Separable t.text where
  ne_empty hempty := by
    rw [← String.toList_eq_nil_iff, toList_text] at hempty
    exact h.chars_ne_nil hempty
  space_notMem := by
    rw [toList_text]
    exact h.space_notMem_chars

namespace Yard

theorem mem_absorb {y : Yard} {t w : Token} (h : w ∈ (y.absorb t).output ++ (y.absorb t).waiting) :
    w ∈ y.output ++ y.waiting ∨ w = t := by
  have htake : ∀ p : Token → Bool, w ∈ y.waiting.takeWhile p → w ∈ y.waiting :=
    fun p hw => (List.takeWhile_sublist p).mem hw
  have hdrop : ∀ p : Token → Bool, w ∈ y.waiting.dropWhile p → w ∈ y.waiting :=
    fun p hw => (List.dropWhile_sublist p).mem hw
  unfold absorb at h
  cases ht : t.lexeme <;> grind [List.mem_of_mem_tail]

-- Only an invalid token has no action of its own, and none is reported.
theorem action_ne_other_absorbAll {y : Yard} {ts : List Token} :
    ∀ m ∈ (y.absorbAll ts).moves, ∀ label, m.action ≠ .other label := by
  induction ts generalizing y with
  | nil => simp [absorbAll]
  | cons t ts ih =>
    rw [absorbAll]
    cases hcomplaint : y.complaint? t with
    | some d => simp
    | none =>
      intro m hm label
      rcases List.mem_cons.1 hm with rfl | hm
      · rw [complaint?] at hcomplaint
        cases ht : t.lexeme <;> simp [ht, Lexeme.action] at hcomplaint ⊢
      · exact ih m hm label

-- Whatever is in the output or waits has been read.
theorem keeps_read (ts : List Token) (stop : Nat) :
    Keeps ts stop fun seen y => ∀ t ∈ y.output ++ y.waiting, t ∈ seen where
  absorb := by
    intro before after t y _ _ h w hw
    rcases mem_absorb hw with hw | rfl
    · exact List.mem_append_left _ (h w hw)
    · simp
  pass h := h
  drain := by
    intro rest t y hwaiting _ h w hw
    refine h w ?_
    rwa [List.append_assoc, List.singleton_append, ← hwaiting] at hw

end Yard

/-! ## 3. Rows -/

def Row.event (r : Row) : Event :=
  ⟨r.position, r.token, Action.ofLabel r.action, words r.output, (words r.stack).reverse⟩

theorem Row.event_ofEvent {e : Event} (haction : ∀ label, e.action ≠ .other label)
    (hstrings : ∀ s ∈ e.output ++ e.stack, Separable s) : (Row.ofEvent e).event = e := by
  have houtput : words (spaced e.output) = e.output :=
    words_spaced fun s hs => hstrings s (by simp [hs])
  have hstack : words (spaced e.stack.reverse) = e.stack.reverse :=
    words_spaced fun s hs => hstrings s (by simp [List.mem_reverse.1 hs])
  rw [Row.event, Row.ofEvent]
  dsimp only
  rw [Action.ofLabel_label haction, houtput, hstack, List.reverse_reverse]

section

variable {s : String} {ts : List Token} (reading : Reading 0 s.toList ts)

include reading

theorem separable_of_mem_events : ∀ e ∈ events s, ∀ str ∈ e.output ++ e.stack, Separable str := by
  intro e he str hstr
  rw [events_eq reading] at he
  obtain ⟨m, hm, rfl⟩ := List.mem_map.1 he
  obtain ⟨n, hn⟩ := List.mem_iff_getElem?.1 hm
  rw [Move.event, List.nil_append, ← List.map_append] at hstr
  obtain ⟨t, ht, rfl⟩ := List.mem_map.1 hstr
  have hread := (Yard.keeps_read ts s.toList.length).move_convert (y := Yard.empty) (by simp [Yard.empty]) hn t ht
  obtain ⟨_, rest, -, -, hstands⟩ := reading.exists_place t (List.mem_of_mem_take hread)
  exact Token.separable_text hstands

theorem action_ne_other_of_mem_events : ∀ e ∈ events s, ∀ label, e.action ≠ .other label := by
  intro e he label
  rw [events_eq reading] at he
  obtain ⟨m, hm, rfl⟩ := List.mem_map.1 he
  obtain ⟨drained, hmoves, hdrained⟩ := Yard.moves_convert (y := Yard.empty) ts s.toList.length
  rw [hmoves] at hm
  rcases List.mem_append.1 hm with hm | hm
  · exact Yard.action_ne_other_absorbAll m hm label
  · rw [Move.event, (hdrained m hm).1]
    simp

end

theorem report_of_ok {s : String} {output : List String} (h : toReversePolish s = .ok output) :
    report s = .ok ((events s).map Row.ofEvent) := by
  rw [toReversePolish, queueOf] at h
  rw [report, events, finish]
  cases hrun : run s with
  | ok q c => rfl
  | error e c =>
    rw [hrun] at h
    contradiction

theorem report_of_error {s : String} {f : Fault} (h : toReversePolish s = .error f) : report s = .error f := by
  rw [report, run_of_error h]

/-- The report on an accepted text has one row for each event, in order, and each row reads back as its event:
its cells cut at single spaces are the output and the stack.  The last row shows the reverse Polish form of the
text and an empty stack.  A text that is refused has no report, for the same reason. -/
theorem report_reads_back (s : String) :
    (∀ output, toReversePolish s = .ok output →
      ∃ rows, report s = .ok rows ∧ rows.map Row.event = events s ∧
        ∃ last, rows.getLast? = some last ∧ words last.output = output ∧ last.stack = "") ∧
    ∀ f, toReversePolish s = .error f → report s = .error f := by
  obtain ⟨ts, reading⟩ : ∃ ts, Reading 0 s.toList ts := ⟨_, reading_scan _ _⟩
  refine ⟨fun output h => ⟨_, report_of_ok h, ?_, ?_⟩, fun f h => report_of_error h⟩
  · rw [List.map_map]
    refine (List.map_congr_left fun e he => ?_).trans (List.map_id _)
    exact Row.event_ofEvent (action_ne_other_of_mem_events reading e he) (separable_of_mem_events reading e he)
  · obtain ⟨e, he, hmachine⟩ := exists_last_event Converter.silent_none h
    have houtput : e.output = output := congrArg Machine.output hmachine
    have hstack : e.stack = [] := congrArg Machine.stack hmachine
    refine ⟨Row.ofEvent e, by rw [List.getLast?_map, he, Option.map_some], ?_, ?_⟩
    · rw [Row.ofEvent, words_spaced, houtput]
      intro str hstr
      exact separable_of_mem_events reading e (List.mem_of_getLast? he) str (by simp [hstr])
    · rw [Row.ofEvent, hstack]
      rfl

/-- Numbers that hold brackets, a comma and a tabulator; and a text that is refused. -/
theorem report_reads_back_group :
    toReversePolish "2,\t[ ^ (3\t] - 4)" = .ok ["2,\t[", "3\t]", "4", "-", "^"] ∧
      (∃ rows, report "2,\t[ ^ (3\t] - 4)" = .ok rows ∧ rows.map Row.event = events "2,\t[ ^ (3\t] - 4)" ∧
        ∃ last, rows.getLast? = some last ∧ words last.output = ["2,\t[", "3\t]", "4", "-", "^"] ∧
          last.stack = "") ∧
      toReversePolish "1 + 2)" = .error (.malformed (.mismatchedClosing 5 6)) ∧
      report "1 + 2)" = .error (.malformed (.mismatchedClosing 5 6)) := by
  have haccepted : toReversePolish "2,\t[ ^ (3\t] - 4)" = .ok ["2,\t[", "3\t]", "4", "-", "^"] := by
    decide +kernel
  have hrefused : toReversePolish "1 + 2)" = .error (.malformed (.mismatchedClosing 5 6)) := by
    decide +kernel
  exact ⟨haccepted, (report_reads_back _).1 _ haccepted, hrefused, (report_reads_back _).2 _ hrefused⟩

end ReversePolish
