import Dlx.Assembly.Batch
import Dlx.Assembly.Writer
import Dlx.Command.HexFile
import Dlx.Command.Listing
import Dlx.Command.Options
import Dlx.Isa.Builtin

/-!
# The command

A run of the command as a function: from the arguments, the files it can see and its surroundings,
to what it prints, what it logs, the files afterwards, and the error it ends with.

A run goes through stages, and each can end it: the names of the sources are checked, the
instruction set is loaded, the sources are read, and only when all of them have been assembled is
the first file written. How the sources are assembled is a parameter: tasks that run at the same
time may end in many orders.

When the program ends, the output that stopped the run is removed, if it was created.
-/

namespace Dlx

inductive CommandError where
  | usage (error : UsageError)
  | notSource (argument : Bytes)
  | file (error : FileError)
  | definitionFile (path : Bytes) (error : FileError)
  | definitions (path : Bytes) (error : Catalog.Error)
  | batch (error : BatchError)
  | output (error : OutputError)
  deriving DecidableEq, Repr

def CommandError.message : CommandError → Bytes
  | .usage error => error.message
  | .notSource argument => utf8 "dlxasm: " ++ argument ++ utf8 " is not a .dlx file"
  | .file error => error.message
  | .definitionFile path error => path ++ utf8 ": " ++ error.message
  | .definitions path error => path ++ utf8 ": " ++ error.message
  | .batch error => error.message
  | .output error => error.message

/-- The output that is still marked for removal when a run has failed. -/
def CommandError.leftover? : CommandError → Option Bytes
  | .output error => error.leftover?
  | _ => none

inductive Output where
  | status (s : Status)
  | listing (text : Bytes)
  | dump (text : Bytes)
  | records (text : Bytes)
  deriving DecidableEq, Repr

/-- A run up to some stage. -/
structure Run where
  output : List Output
  log : List LogEvent
  tree : FileTree
  error : Option CommandError
  deriving DecidableEq, Repr

namespace Run

/-- A run that stops with an error, which is also told. -/
def fail (r : Run) (error : CommandError) : Run :=
  { r with output := r.output ++ [.status (.failed error.message)], error := some error }

def succeed (r : Run) : Run :=
  { r with output := r.output ++ [.status .ended] }

end Run

/-- The surroundings of a run: the files it can see, whether it is cancelled from the start, how the
disk fails each of its outputs, and whether its two streams are terminals. -/
structure Surroundings where
  tree : FileTree
  cancelled : Bool := false
  failures : List (Option WriteFailure) := []
  outTerminal : Bool := false
  errTerminal : Bool := false
  deriving DecidableEq, Repr

namespace Command

/-! ## Checking the names of the sources -/

def isSource (argument : Bytes) : Bool :=
  Path.ending argument == Path.sourceEnding

/-- What is told about the names up to the first that is no source, and that one. -/
def checkNames (arguments : List Bytes) : List Status × Option CommandError :=
  let good := arguments.takeWhile isSource
  let notes := good.map (fun a => Status.note (a ++ utf8 " file valid"))
  let heading := Status.heading (utf8 "VALIDATING INPUTS")
  match arguments.drop good.length with
  | [] => (heading :: notes ++ [.done], none)
  | bad :: _ =>
    (heading :: notes ++ [.failed (bad ++ utf8 " is an invalid input")], some (.notSource bad))

/-! ## Loading the instruction set -/

/-- A definition file: its name in messages, its path, and the format of its records. -/
structure Definitions where
  name : Bytes
  path : Bytes
  format : Format
  deriving DecidableEq, Repr

def definitionFiles (o : Options) : List Definitions :=
  let all : List Definitions :=
    [⟨utf8 "Itypes", o.itypes, .i⟩, ⟨utf8 "Jtypes", o.jtypes, .j⟩, ⟨utf8 "Rtypes", o.rtypes, .r⟩]
  all.filter (fun d => !d.path.isEmpty)

/-- Only a definition file that could be opened has its name in front of the error. -/
def readDefinitions (tree : FileTree) (path : Bytes) : Except CommandError Bytes :=
  (tree.read path).mapError (fun error =>
    match error.action with
    | .reading => .definitionFile path error
    | _ => .file error)

/-- The catalog while definition files are loaded, and what has been told, the latest first. -/
structure Loading where
  catalog : Catalog
  notes : List Status
  deriving DecidableEq, Repr

def loadFile (tree : FileTree) (l : Loading) (d : Definitions) : Except CommandError Loading := do
  let text ← readDefinitions tree d.path
  let loaded := l.catalog.load d.format text
  match loaded.error with
  | some error => throw (.definitions d.path error)
  | none =>
    let note :=
      d.name ++ utf8 " downloaded ==> " ++ Bytes.decimal loaded.count ++ utf8 " instructions"
    return ⟨loaded.catalog, .note note :: l.notes⟩

/-- The built-in instruction set, unless there are definition files. -/
def loadCatalog (tree : FileTree) (o : Options) : List Status × Except CommandError Catalog :=
  let heading := Status.heading (utf8 "CREATING INSTRUCTION MAP")
  let files := definitionFiles o
  if files.isEmpty then
    let note := utf8 "built-in definitions ==> " ++ Bytes.decimal Catalog.builtin.size ++
      utf8 " instructions"
    ([heading, .note note, .done], .ok Catalog.builtin)
  else
    match runUntil (loadFile tree) ⟨Catalog.empty, []⟩ files with
    | (l, none) => (heading :: l.notes.reverse ++ [.done], .ok l.catalog)
    | (l, some error) => (heading :: l.notes.reverse, .error error)

/-! ## Reading the sources -/

def readSource (tree : FileTree) (name : Bytes) : Except CommandError Source :=
  match tree.read name with
  | .ok text => .ok ⟨name, text⟩
  | .error error => .error (.file error)

def readSources (tree : FileTree) (names : List Bytes) : Except CommandError (List Source) :=
  names.mapM (readSource tree)

/-! ## Streaming -/

/-- What streaming the sources prints and logs, and the error that ends it. A cancelled stream has
no items, and its source is still assembled. -/
def stream (catalog : Catalog) (cancelled : Bool) :
    List Source → Bytes × List LogEvent × Option BatchError
  | [] => ([], [], none)
  | source :: rest =>
    let log := assemblyLog source.name source.text
    let (rows, error) := untilError (streamItems catalog cancelled source.name source.text)
    let text := rows.flatMap Row.renderLine
    match error with
    | some error => (text, log, some (.assembly error))
    | none =>
      if cancelled then (text, log, some .cancelled)
      else
        let (texts, logs, error) := stream catalog cancelled rest
        (text ++ texts, log ++ logs, error)

/-! ## Writing files -/

/-- The files while they are written, how the disk fails those to come, and what has been printed,
the latest first. -/
structure Writing where
  tree : FileTree
  failures : List (Option WriteFailure)
  output : List Output
  deriving DecidableEq, Repr

def reportFile (o : Options) (path : Bytes) (a : Assembly) : List Output :=
  let listing := Listing.render a.program.file a.rows a.symbols ++ utf8 "\n"
  [.status (.note (path ++ utf8 " file written"))] ++
    (if o.listing then [.listing listing] else []) ++
    (if o.debug then [.dump (Listing.dump a.symbols)] else [])

/-- Writes the files of a list of assemblies, up to the first that cannot be written. -/
def writeFiles (o : Options) (w : Writing) : List Assembly → Writing × Option OutputError
  | [] => (w, none)
  | a :: rest =>
    let path := Path.output a.program.file o.outDir
    match HexFile.write w.tree path a.rows w.failures.head?.join with
    | (tree, some error) => ({ w with tree }, some error)
    | (tree, none) =>
      writeFiles o ⟨tree, w.failures.tail, (reportFile o path a).reverse ++ w.output⟩ rest

/-! ## The last stage, and the whole run -/

def runStream (r : Run) (catalog : Catalog) (cancelled : Bool) (sources : List Source) : Run :=
  let (text, log, error) := stream catalog cancelled sources
  let r : Run := { r with output := r.output ++ [.records text], log := log }
  match error with
  | some error => r.fail (.batch error)
  | none => r.succeed

def runFiles (r : Run) (s : Surroundings) (o : Options) (batch : Batch.Ending) : Run :=
  let r : Run := { r with log := batch.log }
  match batch.outcome with
  | .error error => r.fail (.batch error)
  | .ok assemblies =>
    let (w, error) := writeFiles o ⟨r.tree, s.failures, []⟩ assemblies
    let r : Run := { r with tree := w.tree, output := r.output ++ w.output.reverse }
    match error with
    | some error => r.fail (.output error)
    | none => r.succeed

/-- What a batch of sources comes to, under some schedule of its tasks. -/
abbrev Assembler := Catalog → List Source → Batch.Ending

def runWith (assembler : Assembler) (s : Surroundings) (o : Options) (arguments : List Bytes) :
    Run :=
  let (checked, bad) := checkNames arguments
  let r : Run := ⟨(.started :: checked).map .status, [], s.tree, bad⟩
  if bad.isSome then r
  else
    let (told, catalog) := loadCatalog s.tree o
    let r : Run := { r with output := r.output ++ told.map .status }
    -- The instruction set comes first: its error hides that of a source.
    match catalog, readSources s.tree arguments with
    | .error error, _ => r.fail error
    | .ok _, .error error => r.fail error
    | .ok catalog, .ok sources =>
      if o.stdout then runStream r catalog s.cancelled sources
      else runFiles r s o (assembler catalog sources)

end Command

/-! ## What a run shows -/

/-- What a run leaves behind: the texts on its two streams, its log, the files, and its error. -/
structure Outcome where
  stdout : Bytes
  stderr : Bytes
  log : List LogEvent
  tree : FileTree
  error : Option CommandError
  deriving DecidableEq, Repr

namespace Outcome

def leftover? (result : Outcome) : Option Bytes :=
  result.error.bind CommandError.leftover?

/-- The files when the program has ended. -/
def atExit (result : Outcome) : FileTree :=
  result.leftover?.elim result.tree result.tree.remove

def exitLog (result : Outcome) : List LogEvent :=
  result.leftover?.toList.map .removing

end Outcome

namespace Command

def logLevel (o : Options) : Int :=
  if o.debug then -8 else if o.verbose then -4 else 4

/-- Status lines go to standard output, unless records do. -/
def onStdout (o : Options) (colored : Bool) : Output → Bytes
  | .status s => if o.stdout then [] else s.render colored
  | .listing text => text
  | .records text => text
  | .dump _ => []

def onStderr (o : Options) (colored : Bool) : Output → Bytes
  | .status s => if o.stdout then s.render colored else []
  | .dump text => text
  | _ => []

/-- What a run leaves behind when its sources are assembled in a given way. -/
def outcomeWith (assembler : Assembler) (s : Surroundings) (o : Options) (arguments : List Bytes) :
    Outcome :=
  let r := runWith assembler s o arguments
  { stdout := r.output.flatMap (onStdout o (s.outTerminal && !o.noColor))
    stderr := r.output.flatMap (onStderr o (s.errTerminal && !o.noColor))
    log := r.log.filter (fun e => logLevel o ≤ e.level)
    tree := r.tree
    error := r.error }

/-- What a run leaves behind that assembles its sources one after the other. -/
def outcome (s : Surroundings) (o : Options) (arguments : List Bytes) : Outcome :=
  outcomeWith (fun catalog => Batch.serial catalog o.jobs s.cancelled) s o arguments

def helpText : Bytes :=
  Bytes.join (utf8 "\n") (["Dlxasm translates DLX assembly source into .hex listings.",
    "",
    "Each source file is assembled independently: labels are local to the",
    "file defining them. The instruction set is read from tab separated",
    "Itypes, Jtypes and Rtypes definition files when given, otherwise the",
    "built-in DLX definitions are used. The output of file.dlx is written",
    "to file.hex, one \"<address>: <value>\" record per line.",
    "",
    "Usage:",
    "  dlxasm [flags] file.dlx...",
    "",
    "Flags:",
    "      --debug            trace address assignment and dump symbol tables",
    "  -h, --help             help for dlxasm",
    "      --itypes string    I-type definition file",
    "  -j, --jobs int         number of files assembled concurrently (default 1)",
    "      --jtypes string    J-type definition file",
    "  -l, --listing          print a listing of each assembled file",
    "      --no-color         disable colored status messages",
    "  -o, --out-dir string   directory for .hex files (default: next to each source)",
    "      --rtypes string    R-type definition file",
    "      --stdout           print the records on standard output instead of writing .hex files",
    "  -v, --verbose          enable debug logging",
    ""].map utf8)

/-- The paths that a run with given settings may read or write. -/
def paths (o : Options) (arguments : List Bytes) : List Bytes :=
  (definitionFiles o).map Definitions.path ++ arguments ++
    arguments.map (fun a => Path.output a o.outDir)

/-- A run of the command. What is wrong with the command line is not printed. -/
def run (s : Surroundings) (arguments : List Bytes) : Outcome :=
  let quiet (stdout : Bytes) (error : Option CommandError) : Outcome :=
    ⟨stdout, [], [], s.tree, error⟩
  match Options.read arguments with
  | .error error => quiet [] (some (.usage error))
  | .ok (options, files) =>
    if options.help then quiet helpText none
    else if files.isEmpty then quiet [] (some (.usage .noFiles))
    else outcome s options files

end Command

end Dlx
