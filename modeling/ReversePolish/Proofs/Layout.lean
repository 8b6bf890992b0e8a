import Mathlib
import ReversePolish.Table
import ReversePolish.Proofs.Display
import ReversePolish.Proofs.Rows

/-!
# Layout — the table of a report can be cut into its cells again

All lines of a table are equally long and a column begins at the same place in each of them.  No cell of a report
begins with a space, so a line cut at these places and rid of the spaces in front gives back what its cells show.
-/

namespace ReversePolish

namespace Table

/-! ## 1. Cells -/

/-- A justified cell without the spaces it begins with. -/
def unjustify (cs : List Char) : List Char := cs.dropWhile (· = ' ')

theorem length_justify {w : Nat} {cs : List Char} (h : cs.length ≤ w) : (justify w cs).length = w := by
  rw [justify, List.length_append, List.length_replicate]
  omega

theorem unjustify_justify {cs : List Char} (h : cs.head? ≠ some ' ') (w : Nat) : unjustify (justify w cs) = cs := by
  have hspaces : ∀ c ∈ List.replicate (w - cs.length) ' ', decide (c = ' ') = true := by
    intro c hc
    exact decide_eq_true (List.eq_of_mem_replicate hc)
  rw [unjustify, justify, List.dropWhile_append_of_pos hspaces]
  cases cs with
  | nil => rfl
  | cons c cs => exact List.dropWhile_cons_of_neg (by simpa using h)

theorem mem_justify {c : Char} {w : Nat} {cs : List Char} (h : c ∈ justify w cs) : c = ' ' ∨ c ∈ cs :=
  (List.mem_append.1 h).imp_left List.eq_of_mem_replicate

theorem head?_cell {s : String} (h : s.toList.head? ≠ some ' ') : (cell s).head? ≠ some ' ' := by
  rw [cell]
  cases hs : s.toList with
  | nil => nofun
  | cons c cs =>
    rw [hs] at h
    rw [List.flatMap_cons, cellChar]
    split_ifs
    · simp
    · simp
    · simp
    · exact h

/-- The characters that a cell writes as two. -/
def controls : List Char := ['\t', '\n', '\r']

theorem notMem_controls_of_mem_cell {s : String} {c : Char} (h : c ∈ cell s) : c ∉ controls := by
  obtain ⟨d, -, hc⟩ := List.mem_flatMap.1 h
  rw [cellChar] at hc
  split_ifs at hc with htab hfeed hreturn
  · fin_cases hc <;> decide
  · fin_cases hc <;> decide
  · fin_cases hc <;> decide
  · rw [List.mem_singleton.1 hc]
    simp [controls, htab, hfeed, hreturn]

/-! ## 2. Lines -/

def body (widths : List Nat) (cells : List (List Char)) : List Char :=
  (List.zipWith (fun w cs => ' ' :: justify w cs) widths cells).flatten

/-- The columns of a line, each behind one space and as wide as it says; nothing else is in the line. -/
def cut : List Nat → List Char → Option (List (List Char))
  | [], [] => some []
  | w :: ws, ' ' :: cs => if w ≤ cs.length then (cut ws (cs.drop w)).map (cs.take w :: ·) else none
  | _, _ => none

theorem layout_eq (columns : Nat) (table : List (List (List Char))) :
    layout columns table = ((table.map (body (widths columns table))).map (· ++ ['\n'])).flatten := by
  rw [List.map_map]
  rfl

section

variable {ws : List Nat} {cells : List (List Char)}

theorem body_cons (w : Nat) (cs : List Char) :
    body (w :: ws) (cs :: cells) = ' ' :: (justify w cs ++ body ws cells) := rfl

variable (fits : List.Forall₂ (fun w cs => cs.length ≤ w) ws cells)

include fits

theorem length_body : (body ws cells).length = ws.sum + ws.length := by
  induction fits with
  | nil => rfl
  | cons hw _ ih =>
    rw [body_cons, List.length_cons, List.length_append, length_justify hw, ih, List.sum_cons, List.length_cons]
    omega

theorem cut_body : cut ws (body ws cells) = some (List.zipWith justify ws cells) := by
  induction fits with
  | nil => rfl
  | @cons w cs ws cells hw _ ih =>
    have hlength := length_justify hw
    have hle : w ≤ (justify w cs ++ body ws cells).length := by
      rw [List.length_append, hlength]
      omega
    rw [body_cons, cut, if_pos hle, List.drop_left' hlength, List.take_left' hlength, ih]
    rfl

theorem map_unjustify_zipWith (h : ∀ cs ∈ cells, cs.head? ≠ some ' ') :
    (List.zipWith justify ws cells).map unjustify = cells := by
  induction fits with
  | nil => rfl
  | @cons w cs ws cells _ _ ih =>
    rw [List.zipWith_cons_cons, List.map_cons, unjustify_justify (h cs List.mem_cons_self),
      ih fun cs' hcs' => h cs' (List.mem_cons_of_mem _ hcs')]

theorem mem_body {c : Char} (h : c ∈ body ws cells) : c = ' ' ∨ ∃ cs ∈ cells, c ∈ cs := by
  induction fits with
  | nil => contradiction
  | @cons w cs ws cells _ _ ih =>
    rw [body_cons, List.mem_cons, List.mem_append] at h
    rcases h with rfl | hc | hc
    · exact .inl rfl
    · exact (mem_justify hc).imp_right fun hcs => ⟨cs, List.mem_cons_self, hcs⟩
    · exact (ih hc).imp_right fun ⟨cs', hcs', h⟩ => ⟨cs', List.mem_cons_of_mem _ hcs', h⟩

end

/-! ## 3. Tables -/

def lengths (table : List (List (List Char))) (k : Nat) : Set Nat :=
  {n | ∃ cells ∈ table, ∃ cs, cells[k]? = some cs ∧ cs.length = n}

/-- `Shows lines widths table`: the lines show the cells of the table in columns of those widths.  A column is as
wide as its longest cell, no line holds a character that would break it, and each line can be cut into its cells. -/
structure Shows (lines : List (List Char)) (widths : List Nat) (table : List (List (List Char))) : Prop where
  width : ∀ k w : Nat, widths[k]? = some w → IsGreatest (lengths table k) w
  length : ∀ l ∈ lines, l.length = widths.sum + widths.length
  plain : ∀ l ∈ lines, ∀ c ∈ l, c ∉ controls
  cells : lines.map (fun l => (cut widths l).map (List.map unjustify)) = table.map some

section

variable {columns : Nat} {table : List (List (List Char))} (hcolumns : ∀ cells ∈ table, cells.length = columns)

include hcolumns

theorem getElem?_of_mem {cells : List (List Char)} (hcells : cells ∈ table) {k : Nat} (hk : k < columns) :
    cells[k]? = some (cells.getD k []) := by
  have hlength : k < cells.length := by
    rw [hcolumns cells hcells]
    exact hk
  rw [List.getD_eq_getElem _ _ hlength, List.getElem?_eq_getElem hlength]

theorem isGreatest_width (hne : table ≠ []) {k : Nat} (hk : k < columns) :
    IsGreatest (lengths table k) (width table k) := by
  have hlengths : (table.map fun cells => (cells.getD k []).length) ≠ [] := by simpa using hne
  constructor
  · have hmem := List.maximum_mem (List.foldr_max_of_ne_nil hlengths).symm
    obtain ⟨cells, hcells, hlength⟩ := List.mem_map.1 hmem
    exact ⟨cells, hcells, _, getElem?_of_mem hcolumns hcells hk, hlength⟩
  · rintro n ⟨cells, hcells, cs, hcs, rfl⟩
    rw [getElem?_of_mem hcolumns hcells hk, Option.some.injEq] at hcs
    rw [← hcs]
    exact List.le_max_of_le (List.mem_map.2 ⟨cells, hcells, rfl⟩) le_rfl

theorem fits_of_mem (hne : table ≠ []) {cells : List (List Char)} (hcells : cells ∈ table) :
    List.Forall₂ (fun w cs => cs.length ≤ w) (widths columns table) cells := by
  have hlength := hcolumns cells hcells
  refine List.forall₂_of_length_eq_of_get (by simp [widths, hlength]) fun k hk hk' => ?_
  rw [hlength] at hk'
  have hwidth : (widths columns table).get ⟨k, hk⟩ = width table k := by simp [widths]
  rw [hwidth]
  exact (isGreatest_width hcolumns hne hk').2 ⟨cells, hcells, _, List.getElem?_eq_getElem _, rfl⟩

theorem shows_layout (hne : table ≠ []) (hspace : ∀ cells ∈ table, ∀ cs ∈ cells, cs.head? ≠ some ' ')
    (hplain : ∀ cells ∈ table, ∀ cs ∈ cells, ∀ c ∈ cs, c ∉ controls) :
    Shows (table.map (body (widths columns table))) (widths columns table) table where
  width := by
    intro k w hw
    obtain ⟨hk, rfl⟩ : k < columns ∧ width table k = w := by
      simpa [widths, List.getElem?_eq_some_iff] using hw
    exact isGreatest_width hcolumns hne hk
  length := by
    intro l hl
    obtain ⟨cells, hcells, rfl⟩ := List.mem_map.1 hl
    exact length_body (fits_of_mem hcolumns hne hcells)
  plain := by
    intro l hl c hc
    obtain ⟨cells, hcells, rfl⟩ := List.mem_map.1 hl
    rcases mem_body (fits_of_mem hcolumns hne hcells) hc with rfl | ⟨cs, hcs, hc⟩
    · decide
    · exact hplain cells hcells cs hcs c hc
  cells := by
    rw [List.map_map]
    refine List.map_congr_left fun cells hcells => ?_
    have fits := fits_of_mem hcolumns hne hcells
    rw [Function.comp_apply, cut_body fits, Option.map_some, map_unjustify_zipWith fits (hspace cells hcells)]

end

theorem exists_render {header : List String} {rows : List (List String)}
    (hcolumns : ∀ cells ∈ rows, cells.length = header.length)
    (hspace : ∀ cells ∈ header :: rows, ∀ s ∈ cells, s.toList.head? ≠ some ' ') :
    ∃ (lines : List (List Char)) (widths : List Nat),
      (render header rows).toList = (lines.map (· ++ ['\n'])).flatten ∧ lines.length = 1 + rows.length ∧
      widths.length = header.length ∧ Shows lines widths ((header :: rows).map fun cells => cells.map cell) := by
  refine ⟨_, widths header.length ((header :: rows).map fun cells => cells.map cell), ?_, ?_, ?_,
    shows_layout ?_ (by simp) ?_ ?_⟩
  · rw [render, String.toList_ofList, layout_eq]
  · rw [List.length_map, List.length_map, List.length_cons, Nat.add_comm]
  · rw [Table.widths, List.length_map, List.length_range]
  · rw [List.forall_mem_map]
    refine List.forall_mem_cons.2 ⟨List.length_map _, fun cells hcells => ?_⟩
    rw [List.length_map, hcolumns cells hcells]
  · rw [List.forall_mem_map]
    intro cells hcells
    rw [List.forall_mem_map]
    exact fun s hs => head?_cell (hspace cells hcells s hs)
  · rw [List.forall_mem_map]
    intro cells _
    rw [List.forall_mem_map]
    exact fun s _ c hc => notMem_controls_of_mem_cell hc

end Table

/-! ## 4. Reports -/

theorem head?_ne_space {s : String} (h : ' ' ∉ s.toList) : s.toList.head? ≠ some ' ' :=
  fun hhead => h (List.mem_of_head? hhead)

theorem head?_spaced {items : List String} (h : ∀ s ∈ items, Separable s) :
    (spaced items).toList.head? ≠ some ' ' := by
  rw [spaced, String.toList_intercalate]
  cases items with
  | nil => simp
  | cons a rest =>
    -- the cell begins with the first string, and that one begins with no space
    have ha := h a List.mem_cons_self
    obtain ⟨c, cs, hchars⟩ := List.exists_cons_of_ne_nil (mt String.toList_eq_nil_iff.1 ha.ne_empty)
    have hhead := head?_ne_space ha.space_notMem
    rw [hchars] at hhead
    cases rest <;> simpa [hchars, List.intercalate] using hhead

namespace Machine

-- The token of a step is in the output or on the stack afterwards, or it is a closing parenthesis.
theorem Step.token_mem {m : Machine} {e : Event} (h : Step m e) : e.token = ")" ∨ e.token ∈ e.output ++ e.stack := by
  cases h <;> simp

theorem Run.token_mem {m n : Machine} {es : List Event} (h : Run m es n) :
    ∀ e ∈ es, e.token = ")" ∨ e.token ∈ e.output ++ e.stack := by
  induction h with
  | nil => simp
  | cons hstep _ ih => exact List.forall_mem_cons.2 ⟨hstep.token_mem, ih⟩

end Machine

section

variable {s : String} {ts : List Token} (reading : Reading 0 s.toList ts)

include reading

theorem separable_token_of_mem_events : ∀ e ∈ events s, Separable e.token := by
  intro e he
  obtain ⟨m, hrun, -⟩ := Yard.exists_run_convert (y := Yard.empty) ts s.toList.length (by simp [Yard.empty])
  rw [← events_eq reading] at hrun
  rcases hrun.token_mem e he with htoken | htoken
  · rw [htoken]
    exact ⟨by decide, by decide⟩
  · exact separable_of_mem_events reading e he _ htoken

theorem head?_of_mem_cells_ofEvent {e : Event} (he : e ∈ events s) :
    ∀ cell ∈ (Row.ofEvent e).cells, cell.toList.head? ≠ some ' ' := by
  have hstrings := separable_of_mem_events reading e he
  have haction := Action.notMem_label (action_ne_other_of_mem_events reading e he) (.inl rfl)
  simp only [Row.cells, Row.ofEvent, List.forall_mem_cons, List.not_mem_nil, false_implies, implies_true, and_true]
  refine ⟨head?_ne_space (space_notMem_toString _), ?_, head?_ne_space haction, ?_, ?_⟩
  · exact head?_ne_space (separable_token_of_mem_events reading e he).space_notMem
  · exact head?_spaced fun str hstr => hstrings str (List.mem_append_left _ hstr)
  · exact head?_spaced fun str hstr => hstrings str (List.mem_append_right _ (List.mem_reverse.1 hstr))

end

/-- The table of an accepted text has a line with the names of the columns and one line for each row of its
report, every line followed by a line feed.  All lines have the same length, no line holds a tabulator, a line
feed or a carriage return, and cut at its columns, each as wide as the longest cell in it, and rid of the spaces in
front it gives back the cells of its row, in which these characters are written as two. -/
theorem reportTable_shows {s : String} {output : List String} (h : toReversePolish s = .ok output) :
    ∃ (rows : List Row) (text : String) (lines : List (List Char)) (widths : List Nat),
      report s = .ok rows ∧ rows.length = (events s).length ∧
      reportTable s = .ok text ∧ text.toList = (lines.map (· ++ ['\n'])).flatten ∧
      lines.length = 1 + (events s).length ∧
      widths.length = 5 ∧ (∀ l ∈ lines, l.length = 1 + widths.sum + 4) ∧
      Table.Shows lines widths
        (Row.columns.map String.toList :: rows.map fun row => row.cells.map Table.cell) := by
  obtain ⟨ts, reading⟩ : ∃ ts, Reading 0 s.toList ts := ⟨_, reading_scan _ _⟩
  have hreport := report_of_ok h
  have hspace : ∀ cells ∈ Row.columns :: ((events s).map Row.ofEvent).map Row.cells,
      ∀ str ∈ cells, str.toList.head? ≠ some ' ' := by
    refine List.forall_mem_cons.2 ⟨by decide, ?_⟩
    simp only [List.mem_map]
    rintro _ ⟨_, ⟨e, he, rfl⟩, rfl⟩
    exact head?_of_mem_cells_ofEvent reading he
  obtain ⟨lines, widths, htext, hlines, hwidths, hshows⟩ :=
    Table.exists_render (by simp [Row.cells, Row.columns]) hspace
  refine ⟨_, _, lines, widths, hreport, List.length_map _, ?_, htext, ?_, hwidths, ?_, ?_⟩
  · rw [reportTable, hreport]
    rfl
  · rw [hlines, List.length_map, List.length_map]
  · intro l hl
    rw [hshows.length l hl, hwidths]
    exact (Nat.add_comm 1 (widths.sum + 4)).symm
  · have hnames : Row.columns.map Table.cell = Row.columns.map String.toList := by decide
    rwa [List.map_cons, hnames, List.map_map] at hshows

/-- The table of a text in which the first number holds a line feed and a tabulator, and the last one a backslash in
front of a letter. -/
def escapedTable : String :=
  " position token   action      output stack\n" ++
  "        0 2\\n\\t   number       2\\n\\t      \n" ++
  "        4     - operator       2\\n\\t     -\n" ++
  "        6   3\\t   number   2\\n\\t 3\\t     -\n" ++
  "        9     -    drain 2\\n\\t 3\\t -      \n"

theorem reportTable_shows_escaped :
    toReversePolish "2\n\t - 3\\t" = .ok ["2\n\t", "3\\t", "-"] ∧
      ∃ (rows : List Row) (lines : List (List Char)) (widths : List Nat),
        report "2\n\t - 3\\t" = .ok rows ∧ rows.length = (events "2\n\t - 3\\t").length ∧
        reportTable "2\n\t - 3\\t" = .ok escapedTable ∧
        escapedTable.toList = (lines.map (· ++ ['\n'])).flatten ∧
        lines.length = 1 + (events "2\n\t - 3\\t").length ∧
        widths.length = 5 ∧ (∀ l ∈ lines, l.length = 1 + widths.sum + 4) ∧
        Table.Shows lines widths
          (Row.columns.map String.toList :: rows.map fun row => row.cells.map Table.cell) := by
  have haccepted : toReversePolish "2\n\t - 3\\t" = .ok ["2\n\t", "3\\t", "-"] := by decide +kernel
  have htable : reportTable "2\n\t - 3\\t" = .ok escapedTable := by decide +kernel
  obtain ⟨rows, text, lines, widths, hreport, hlength, htext, hlines⟩ := reportTable_shows haccepted
  obtain rfl : escapedTable = text := Except.ok.inj (htable.symm.trans htext)
  exact ⟨haccepted, rows, lines, widths, hreport, hlength, htext, hlines⟩

end ReversePolish
