import Dlx.Text.Blank
import Dlx.Text.Display

/-!
# Tables

Tables of text in a light box: a title across the whole width, a header, rows, and a footer. A
column is as wide as its longest cell, and every cell has a blank on both sides.

A cell may hold several lines, and a row is then as high as its highest cell. A tab in a cell is
four blanks, and a carriage return goes back to the start of the line, so that what follows it
covers what was there.
-/

namespace Dlx

inductive Alignment where
  | left
  | right
  deriving DecidableEq, Repr

/-- A table. Every row has as many cells as there are columns. -/
structure Table where
  title : List Char
  columns : List Alignment
  header : List (List Char)
  rows : List (List (List Char))
  footer : List (List Char)
  deriving DecidableEq, Repr

namespace Table

/-! ## Cells -/

/-- One character of an overwritten line: the characters in front of the carriage, the nearest
first, and those from the carriage on. -/
def overstrikeStep (line : List Char × List Char) (c : Char) : List Char × List Char :=
  if c = '\r' then ([], line.1.reverse ++ line.2) else (c :: line.1, line.2.tail)

/-- A line in which carriage returns have been carried out. -/
def overstrike (line : List Char) : List Char :=
  let written := line.foldl overstrikeStep ([], [])
  written.1.reverse ++ written.2

/-- A line without the carriage return in front of its newline. -/
def dropReturn (line : List Char) : List Char :=
  if line.getLast? = some '\r' then line.dropLast else line

/-- The text of a cell, with tabs and carriage returns carried out. Only a carriage return in front
of a newline belongs to the newline. -/
def cellText (text : List Char) : List Char :=
  let lines := Display.splitLines (Display.expandTabs text)
  ['\n'].intercalate ((lines.dropLast.map dropReturn ++ lines.getLast?.toList).map overstrike)

/-- The lines of a cell in a column of a given width. Characters that take up no place count when a
line is cut, so that a line with such characters may not fit. -/
def cellLines (columnWidth : Nat) (text : List Char) : List (List Char) :=
  Display.wrap columnWidth (cellText text)

/-- A line of a cell, filled up to the width of its column. -/
def pad (alignment : Alignment) (columnWidth : Nat) (line : List Char) : List Char :=
  let fill := List.replicate (columnWidth - Display.width line) ' '
  match alignment with
  | .left => line ++ fill
  | .right => fill ++ line

/-! ## Lines -/

/-- A horizontal line of the box. -/
def rule (left middle right : Char) (widths : List Nat) : List Char :=
  let bars := widths.map (fun w => List.replicate (w + 2) '─')
  left :: ([middle].intercalate bars ++ [right])

def rowLines (columns : List Alignment) (widths : List Nat) (cells : List (List Char)) :
    List (List Char) :=
  let cells := (widths.zip cells).map (fun (columnWidth, text) => cellLines columnWidth text)
  let height := (cells.map List.length).foldl max 1
  (List.range height).map (fun i =>
    let parts := (columns.zip (widths.zip cells)).map
      (fun (alignment, columnWidth, lines) =>
        ' ' :: (pad alignment columnWidth (lines.getD i []) ++ [' ']))
    '│' :: (['│'].intercalate parts ++ ['│']))

/-- The width of a column: that of its longest line. -/
def columnWidth (table : Table) (column : Nat) : Nat :=
  let cells := (table.header :: table.rows ++ [table.footer]).map (fun row => row.getD column [])
  (cells.map (fun text => Display.longest (cellText text))).foldl max 0

def widths (table : Table) : List Nat :=
  (List.range table.columns.length).map table.columnWidth

/-! ## Titles -/

/-- The lines of a title in a table whose text is `size` places wide, each trimmed. -/
def titleLines (size : Nat) (title : List Char) : List (List Char) :=
  (Display.fill size title).map (fun line =>
    ((line.dropWhile Blank.isBlank).reverse.dropWhile Blank.isBlank).reverse)

def top (table : Table) : List (List Char) :=
  let widths := table.widths
  if table.title.isEmpty then [rule '┌' '┬' '┐' widths]
  else
    let size := (widths.map (· + 3)).foldl (· + ·) 0 - 3
    let lines := (titleLines size table.title).map
      (fun line => ['│', ' '] ++ pad .left size line ++ [' ', '│'])
    rule '┌' '─' '┐' widths :: (lines ++ [rule '├' '┬' '┤' widths])

def lines (table : Table) : List (List Char) :=
  let widths := table.widths
  let row := rowLines table.columns widths
  let middle := rule '├' '┼' '┤' widths
  table.top ++ row table.header ++ [middle] ++ table.rows.flatMap row ++ [middle] ++
    row table.footer ++ [rule '└' '┴' '┘' widths]

/-- A table as text, without a newline at its end. -/
def render (table : Table) : Bytes :=
  Bytes.join (utf8 "\n") (table.lines.map Utf8.encode)

end Table

end Dlx
