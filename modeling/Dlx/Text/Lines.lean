import Dlx.Text.Bytes

/-!
# Lines

A text is read line by line. A line ends at a newline or at the end of the text, one carriage return
before that end is dropped, and an empty rest after the last newline is no line. A line of
`Lines.limit` bytes or more is over-long: reading stops in front of it, and the lines before it
stand.
-/

namespace Dlx

/-- The lines of a text up to the first over-long one, and whether there is such a line. -/
structure Lines where
  lines : List Bytes
  overlong : Bool
  deriving DecidableEq, Repr

namespace Lines

/-- The length, in bytes, from which on a line is over-long. -/
def limit : Nat := 65536

/-- The pieces of a text between newlines, without an empty last one. -/
def pieces (text : Bytes) : List Bytes :=
  let all := Bytes.split 0x0A text
  if all.getLast? = some [] then all.dropLast else all

/-- A line without the carriage return in front of its end. -/
def dropReturn (line : Bytes) : Bytes :=
  if line.getLast? = some 0x0D then line.dropLast else line

def fits (line : Bytes) : Bool :=
  line.length < limit

def ofBytes (text : Bytes) : Lines where
  lines := ((pieces text).takeWhile fits).map dropReturn
  overlong := (pieces text).any (fun line => !fits line)

def overlongText : Bytes :=
  utf8 "bufio.Scanner: token too long"

end Lines

end Dlx
