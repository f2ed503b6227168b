import Dlx.Record
import Dlx.Source.Line

/-!
# Rows

A row is one item of the assembler's output: an instruction word or the text of a data element, at
an address, with the line it came from. As a record it is one line of the output file.
-/

namespace Dlx

inductive Content where
  | word (value : UInt32)
  | text (value : Bytes)
  deriving DecidableEq, Repr

structure Row where
  address : UInt32
  content : Content
  source : Option Line := none
  deriving DecidableEq, Repr

namespace Row

def word? (row : Row) : Option UInt32 :=
  match row.content with
  | .word value => some value
  | .text _ => none

def value (row : Row) : Bytes :=
  match row.content with
  | .word value => hex8 value
  | .text value => value

def record (row : Row) : Record :=
  ⟨row.address, row.value⟩

/-- A row as a line of output, without its newline. -/
def render (row : Row) : Bytes :=
  row.record.render

/-- The number of the line that a row came from, or zero. -/
def lineno (row : Row) : Int :=
  row.source.elim 0 Line.lineno

def renderLine (row : Row) : Bytes :=
  row.render ++ utf8 "\n"

def renderAll (rows : List Row) : Bytes :=
  Record.renderAll (rows.map record)

end Row

end Dlx
