/-!
# Comma-separated rows

Cells are separated by commas and rows by line ends of any kind.  A cell that starts
with a quote extends to its closing quote, with a doubled quote for a quote; what
stands behind the closing quote still belongs to the cell.  Blank lines are no rows.
-/

namespace TopdownMetrics.Csv

/-- Where the reader stands. -/
inductive Place where
  | startOfRow
  | startOfCell
  | inCell
  | inQuotes
  /-- Behind a quote inside a quoted cell. -/
  | afterQuote
  deriving DecidableEq, Repr

/-- What has been read, each part in reverse. -/
structure Progress where
  place : Place
  rows : List (List String)
  row : List String
  cell : List Char

namespace Progress

def start : Progress := ⟨.startOfRow, [], [], []⟩

def endCell (p : Progress) : Progress :=
  { p with place := .startOfCell, row := String.ofList p.cell.reverse :: p.row, cell := [] }

def endRow (p : Progress) : Progress :=
  let p := p.endCell
  { p with place := .startOfRow, rows := p.row.reverse :: p.rows, row := [] }

def push (p : Progress) (c : Char) (place : Place) : Progress :=
  { p with place := place, cell := c :: p.cell }

def plain (p : Progress) (c : Char) : Progress :=
  if c = ',' then p.endCell
  else if c = '\n' ∨ c = '\r' then p.endRow
  else p.push c .inCell

def first (p : Progress) (c : Char) : Progress :=
  if c = '"' then { p with place := .inQuotes } else p.plain c

def step (p : Progress) (c : Char) : Progress :=
  match p.place with
  | .startOfRow => if c = '\n' ∨ c = '\r' then p else p.first c
  | .startOfCell => p.first c
  | .inCell => p.plain c
  | .inQuotes => if c = '"' then { p with place := .afterQuote } else p.push c .inQuotes
  | .afterQuote => if c = '"' then p.push c .inQuotes else p.plain c

/-- Ends the last row, if one is open. -/
def finish (p : Progress) : List (List String) :=
  let p := if p.place = .startOfRow then p else p.endRow
  p.rows.reverse

end Progress

/-- The rows of a text; a byte order mark at its start is skipped. -/
def rows (text : String) : List (List String) :=
  let cs := match text.toList with
    | '\ufeff' :: cs => cs
    | cs => cs
  (cs.foldl Progress.step .start).finish

end TopdownMetrics.Csv
