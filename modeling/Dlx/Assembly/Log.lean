import Dlx.Assembly.Assemble

/-!
# Log

Assembling leaves a log: every line that is placed, the symbol table of a file, and the end of a
file. The log of a file does not depend on the catalog, and it is there even when the file has an
error: it then ends where the first pass stopped. The removal of an output at the end of the program
is logged too.
-/

namespace Dlx

inductive LogEvent where
  | placed (file : Bytes) (address : UInt32) (text : Bytes)
  | symbols (file : Bytes) (labels : Nat)
  | assembled (file : Bytes) (rows : Nat)
  | removing (file : Bytes)
  deriving DecidableEq, Repr

namespace LogEvent

def level : LogEvent → Int
  | .placed .. => -8
  | .symbols .. => -4
  | .assembled .. => 0
  | .removing _ => 4

def levelName : LogEvent → Bytes
  | .placed .. => utf8 "DEBUG-4"
  | .symbols .. => utf8 "DEBUG"
  | .assembled .. => utf8 "INFO"
  | .removing _ => utf8 "WARN"

def message : LogEvent → Bytes
  | .placed .. => utf8 "layout"
  | .symbols .. => utf8 "symbol table created"
  | .assembled .. => utf8 "file assembled"
  | .removing _ => utf8 "removing partial output"

/-- The particulars of an event, each with its key. -/
def attributes : LogEvent → List (Bytes × Bytes)
  | .placed file address text =>
    [(utf8 "file", file), (utf8 "addr", hex8 address), (utf8 "line", text)]
  | .symbols file labels => [(utf8 "file", file), (utf8 "labels", Bytes.decimal labels)]
  | .assembled file rows => [(utf8 "file", file), (utf8 "rows", Bytes.decimal rows)]
  | .removing file => [(utf8 "file", file)]

/-- An event as a line of `key=value` pairs. -/
def render (e : LogEvent) : Bytes :=
  let pairs := (utf8 "level", e.levelName) :: (utf8 "msg", e.message) :: e.attributes
  Bytes.join (utf8 " ") (pairs.map (fun (key, value) => key ++ utf8 "=" ++ Quoted.pairValue value))

end LogEvent

def assemblyLog (file source : Bytes) : List LogEvent :=
  let (lines, error) := Layout.run file source
  let placed := lines.map (fun line => .placed file line.address line.text)
  match error with
  | some _ => placed
  | none => placed ++ [.symbols file (SymbolTable.ofLines lines).size]

end Dlx
