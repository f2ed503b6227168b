import Dlx.Text.Lines
import Dlx.Text.Numeral

/-!
# Records

The output of the assembler is a text of records, one a line: an address of eight hexadecimal
digits, a colon, the value, and a comment mark. The reader is more lenient than the writer: it drops
everything from the comment mark on, takes an address of any length that fits a word, and trims
blanks around both parts.
-/

namespace Dlx

structure Record where
  address : UInt32
  value : Bytes
  deriving DecidableEq, Repr

namespace Record

/-- Why a record, or a text of records, could not be read. -/
inductive Error where
  | missingColon
  | badNumber (error : Numeral.Error)
  | notWord (value : Bytes)
  | overlong
  deriving DecidableEq, Repr

def malformedText : Bytes :=
  utf8 "word: malformed record"

def Error.message : Error → Bytes
  | .missingColon => malformedText ++ utf8 ": missing colon"
  | .badNumber error => malformedText ++ utf8 ": " ++ error.message
  | .notWord value => malformedText ++ utf8 ": '" ++ value ++ utf8 "' is not a word"
  | .overlong => Lines.overlongText

/-! ## Writing -/

/-- A record as a line, without its newline. -/
def render (r : Record) : Bytes :=
  hex8 r.address ++ utf8 ": " ++ r.value ++ utf8 "\t#"

def renderAll (records : List Record) : Bytes :=
  records.flatMap (fun r => r.render ++ utf8 "\n")

/-! ## Reading -/

/-- A word in base 16, with the text in the error. -/
def readWord (text : Bytes) : Except Error UInt32 :=
  match Numeral.readNatural 16 32 text with
  | .ok value => .ok value.toUInt32
  | .error error => .error (.badNumber error)

def parse (line : Bytes) : Except Error Record :=
  match Bytes.cut? 0x3A (Blank.trim (Bytes.before 0x23 line)) with
  | none => .error .missingColon
  | some (address, value) =>
    match readWord (Blank.trim address) with
    | .error error => .error error
    | .ok address => .ok ⟨address, Blank.trim value⟩

/-- The value of a record as a word: exactly eight bytes of hexadecimal digits. -/
def word (r : Record) : Except Error UInt32 :=
  if r.value.length = 8 then readWord r.value else .error (.notWord r.value)

/-- The records of a list of lines; blank lines are skipped. -/
def parseLines (lines : List Bytes) : Except Error (List Record) :=
  (lines.filter (fun line => !(Blank.trim line).isEmpty)).mapM parse

/-- The records of a text. An unreadable record comes before an over-long line that follows it. -/
def load (text : Bytes) : Except Error (List Record) :=
  let read := Lines.ofBytes text
  match parseLines read.lines with
  | .error error => .error error
  | .ok records => if read.overlong then .error .overlong else .ok records

end Record

end Dlx
