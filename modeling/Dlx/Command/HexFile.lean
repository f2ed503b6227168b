import Dlx.Assembly.Row
import Dlx.Command.FileTree

/-!
# Output files

The rows of an assembly are written as a text of records, and the file is read back at once: it has
to hold exactly one record per row, with the row's address and value.

From its creation until it has passed this check, a file is marked for removal at the end of the
program. A file that could not be written to its end, could not be closed or did not pass keeps the
mark: `OutputError.leftover?` is its path. What the disk does to a file is given from outside, as a
`WriteFailure`.
-/

namespace Dlx

/-- What is wrong with an output file. One that could not be created, written or closed has the
error of the file system alone. -/
inductive OutputError where
  | file (error : FileError)
  | unreadable (path : Bytes) (error : FileError)
  | records (path : Bytes) (error : Record.Error)
  | count (path : Bytes) (found expected : Nat)
  | differs (path : Bytes) (address : UInt32)
  deriving DecidableEq, Repr

def OutputError.mismatchText : Bytes :=
  utf8 "dlxasm: output does not match the assembled rows"

def OutputError.message : OutputError → Bytes
  | .file error => error.message
  | .unreadable path error => path ++ utf8 ": " ++ error.message
  | .records path error => path ++ utf8 ": " ++ error.message
  | .count path found expected =>
    path ++ utf8 ": " ++ mismatchText ++ utf8 ": " ++ Bytes.decimal found ++ utf8 " records for " ++
      Bytes.decimal expected ++ utf8 " rows"
  | .differs path address =>
    path ++ utf8 ": " ++ mismatchText ++ utf8 " at " ++ hex8 address

/-- The path of a file that was created and is still marked for removal. -/
def OutputError.leftover? : OutputError → Option Bytes
  | .file error =>
    match error.action with
    | .opening | .reading => none
    | .writing | .closing => some error.path
  | .unreadable path _ | .records path _ | .count path .. | .differs path _ => some path

/-- How the disk fails a file that has been created: while it is written, behind a number of bytes
that it has taken, or when it is closed, with all of its text. -/
inductive WriteFailure where
  | writing (taken : Nat) (words : Bytes)
  | closing (words : Bytes)
  deriving DecidableEq, Repr

/-- What is left of a text that is written to a file. -/
def WriteFailure.left (text : Bytes) : WriteFailure → Bytes
  | .writing taken _ => text.take taken
  | .closing _ => text

def WriteFailure.error (path : Bytes) : WriteFailure → FileError
  | .writing _ words => ⟨.writing, path, .device words⟩
  | .closing words => ⟨.closing, path, .device words⟩

namespace HexFile

/-- Whether a record is that of a row. A record of a word also has to read back as that word. -/
def agrees (record : Record) (row : Row) : Bool :=
  record == row.record &&
    match row.word? with
    | none => true
    | some word => record.word.toOption == some word

/-- What is wrong with a text of records for a list of rows. -/
def check (path : Bytes) (text : Bytes) (rows : List Row) : Option OutputError :=
  match Record.load text with
  | .error error => some (.records path error)
  | .ok records =>
    if records.length ≠ rows.length then some (.count path records.length rows.length)
    else ((records.zip rows).find? (fun (record, row) => !agrees record row)).map
      (fun (_, row) => .differs path row.address)

def verify (tree : FileTree) (path : Bytes) (rows : List Row) : Option OutputError :=
  match tree.read path with
  | .ok text => check path text rows
  | .error error =>
    match error.action with
    | .reading => some (.unreadable path error)
    | _ => some (.file error)

/-- Writes an output file and reads it back, on a disk that may fail. -/
def write (tree : FileTree) (path : Bytes) (rows : List Row)
    (failure : Option WriteFailure := none) :
    FileTree × Option OutputError :=
  let text := Row.renderAll rows
  match tree.create path (failure.elim text (WriteFailure.left text)) with
  | .error error => (tree, some (.file error))
  | .ok tree =>
    match failure with
    | some failure => (tree, some (.file (failure.error path)))
    | none => (tree, verify tree path rows)

end HexFile

end Dlx
