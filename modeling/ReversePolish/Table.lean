import ReversePolish.Report

/-!
# Table — rows of cells as text in right-justified columns

A column is as wide as its longest cell or its name, counted in characters.  A line is a space and then
the cells, one space between two of them.  Tabulators, line feeds and carriage returns inside cells are
written as two characters, so that a line of the table is a line of the text.
-/

namespace ReversePolish

namespace Table

/-! ## 1. Cells -/

def cellChar (c : Char) : List Char :=
  if c = '\t' then ['\\', 't']
  else if c = '\n' then ['\\', 'n']
  else if c = '\r' then ['\\', 'r']
  else [c]

def cell (s : String) : List Char :=
  s.toList.flatMap cellChar

/-- A cell behind as many spaces as it takes to fill the width. -/
def justify (width : Nat) (cs : List Char) : List Char :=
  List.replicate (width - cs.length) ' ' ++ cs

/-! ## 2. Lines -/

/-- The length of the longest cell of column `k`. -/
def width (lines : List (List (List Char))) (k : Nat) : Nat :=
  (lines.map fun cells => (cells.getD k []).length).foldr max 0

def widths (columns : Nat) (lines : List (List (List Char))) : List Nat :=
  (List.range columns).map (width lines)

/-- One line: every cell justified behind one space, and a line feed at the end. -/
def line (widths : List Nat) (cells : List (List Char)) : List Char :=
  (List.zipWith (fun w cs => ' ' :: justify w cs) widths cells).flatten ++ ['\n']

def layout (columns : Nat) (lines : List (List (List Char))) : List Char :=
  lines.flatMap (line (widths columns lines))

/-- A table of named columns as text. -/
def render (header : List String) (rows : List (List String)) : String :=
  String.ofList (layout header.length ((header :: rows).map fun cells => cells.map cell))

end Table

def reportTable (s : String) : Except Fault String :=
  (report s).map fun rows => Table.render Row.columns (rows.map Row.cells)

end ReversePolish
