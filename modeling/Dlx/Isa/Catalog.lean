import Dlx.Fault
import Dlx.Isa.Shape
import Dlx.Text.Numeral
import Dlx.UntilError

/-!
# Instruction catalogs

A catalog says of every known opcode how it is encoded. It is built from definition texts, one
record a line with fields between tabs: `opcode`, `encoding`, and for format R also `function`. An
opcode that is defined again keeps its last definition.

Reading a definition text stops at the first malformed record; what stands before it is accepted.
`Catalog.accepted` is that list, and loading is inserting it record by record.
-/

namespace Dlx

/-- How an opcode is encoded. The function code is `-1` where the format has none. -/
structure Descriptor where
  opcode : Bytes
  encoding : UInt32
  format : Format
  function : Int
  deriving DecidableEq, Repr

def Descriptor.noFunction : Int := -1

/-- Known opcodes, each with one descriptor. -/
structure Catalog where
  entries : List Descriptor
  deriving DecidableEq, Repr

namespace Catalog

def empty : Catalog := ⟨[]⟩

def size (c : Catalog) : Nat := c.entries.length

/-- Defines an opcode, in the place of an earlier definition. -/
def insert (c : Catalog) (d : Descriptor) : Catalog :=
  ⟨c.entries.filter (fun e => e.opcode != d.opcode) ++ [d]⟩

def find? (c : Catalog) (opcode : Bytes) : Option Descriptor :=
  c.entries.find? (fun e => e.opcode == opcode)

def find (c : Catalog) (opcode : Bytes) : Except Fault Descriptor :=
  match c.find? opcode with
  | some d => .ok d
  | none => .error ⟨.unknownOpcode, opcode⟩

/-! ## Definition records -/

inductive Flaw where
  | fieldCount (wanted got : Nat)
  | badNumber (error : Numeral.Error)
  deriving DecidableEq, Repr

def Flaw.text : Flaw → Bytes
  | .fieldCount wanted got =>
    utf8 "want " ++ Bytes.decimal wanted ++ utf8 " fields, got " ++ Bytes.decimal got
  | .badNumber error => error.message

/-- Why a definition text was not read to its end. -/
inductive Error where
  | malformed (lineno : Nat) (flaw : Flaw)
  | overlong
  deriving DecidableEq, Repr

def Error.message : Error → Bytes
  | .malformed lineno flaw =>
    utf8 "asm: malformed instruction definition on record " ++ Bytes.decimal lineno ++ utf8 ": " ++
      flaw.text
  | .overlong => Lines.overlongText

/-- The number of fields that a record of a format needs. -/
def fieldsOf (format : Format) : Nat :=
  if format = .r then 3 else 2

/-- The function code of a record: the third field in format R, none in another format. -/
def parseFunction (format : Format) (fields : List Bytes) : Except Flaw Int :=
  if format = .r then
    (Numeral.readInteger 10 32 (Blank.trim (fields.getD 2 []))).mapError .badNumber
  else .ok Descriptor.noFunction

/-- The definition on a line. Fields past those needed are left alone. -/
def parse (format : Format) (line : Bytes) : Except Flaw Descriptor := do
  let fields := Bytes.split 0x09 line
  if fields.length < fieldsOf format then throw (.fieldCount (fieldsOf format) fields.length)
  let encoding ← (Numeral.readNatural 10 32 (Blank.trim (fields.getD 1 []))).mapError .badNumber
  let function ← parseFunction format fields
  return ⟨Blank.trim (fields.getD 0 []), encoding.toUInt32, format, function⟩

/-- A line without the carriage returns at its end. -/
def dropReturns (line : Bytes) : Bytes :=
  (line.reverse.dropWhile (· == 0x0D)).reverse

/-- The outcome of every line that is not blank, with lines counted from one. -/
def outcomes (format : Format) (lines : List Bytes) : List (Except Error Descriptor) :=
  (lines.zipIdx 1).filterMap (fun (line, lineno) =>
    let line := dropReturns line
    if (Blank.trim line).isEmpty then none
    else some ((parse format line).mapError (.malformed lineno)))

/-- The definitions that a text is read as, and why reading stopped, when it stopped early. -/
def accepted (format : Format) (text : Bytes) : List Descriptor × Option Error :=
  let read := Lines.ofBytes text
  let (definitions, error) := untilError (outcomes format read.lines)
  (definitions, error.or (if read.overlong then some .overlong else none))

/-- A catalog after loading a text: with the number of records taken, and why loading stopped. -/
structure Loaded where
  catalog : Catalog
  count : Nat
  error : Option Error
  deriving DecidableEq, Repr

/-- Loads a definition text. The records in front of a malformed one stay loaded. -/
def load (c : Catalog) (format : Format) (text : Bytes) : Loaded :=
  let (definitions, error) := accepted format text
  ⟨definitions.foldl insert c, definitions.length, error⟩

end Catalog

end Dlx
