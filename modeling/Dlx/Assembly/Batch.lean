import Dlx.Assembly.Log
import Dlx.Assembly.Pool

/-!
# Assembling several files

Files are assembled independently of each other, by a pool of tasks that share the catalog. The
results come in the order of the files; the first error ends the batch, and then there are no
results. The pool is taken to keep the room of a task until its outcome is recorded.
-/

namespace Dlx

structure Source where
  name : Bytes
  text : Bytes
  deriving DecidableEq, Repr

inductive BatchError where
  | cancelled
  | assembly (error : AssemblyError)
  deriving DecidableEq, Repr

def BatchError.message : BatchError → Bytes
  | .cancelled => utf8 "context canceled"
  | .assembly error => error.message

namespace Batch

def work (catalog : Catalog) (sources : List Source) (task : Nat) : Except BatchError Assembly :=
  match sources[task]? with
  | some source => (assemble catalog source.name source.text).mapError .assembly
  | none => .error .cancelled

/-- The pool that assembles a list of files, `jobs` at a time. -/
def pool (catalog : Catalog) (jobs : Int) (cancelled : Bool) (sources : List Source) :
    Pool BatchError Assembly where
  work := work catalog sources
  cancellation := .cancelled
  cancelled := cancelled
  limit := jobs.toNat
  keepsRoom := true

/-- Assembles a list of files one after the other. -/
def assembleAll (catalog : Catalog) (jobs : Int) (cancelled : Bool) (sources : List Source) :
    Except BatchError (List Assembly) :=
  (pool catalog jobs cancelled sources).runSerial sources.length

/-- The log of one file in a batch: an assembled file is told at its end. -/
def fileLog (catalog : Catalog) (source : Source) : List LogEvent :=
  assemblyLog source.name source.text ++
    match assemble catalog source.name source.text with
    | .ok assembly => [.assembled source.name assembly.rows.length]
    | .error _ => []

/-- The files of a batch up to the first that cannot be assembled, that one included. -/
def reached (catalog : Catalog) (sources : List Source) : List Source :=
  sources.foldr
    (fun source after =>
      match assemble catalog source.name source.text with
      | .ok _ => source :: after
      | .error _ => [source])
    []

/-- The log of a batch: files behind the first error are not reached, and a batch that is cancelled
from the start reaches none. -/
def log (catalog : Catalog) (cancelled : Bool) (sources : List Source) : List LogEvent :=
  if cancelled then [] else (reached catalog sources).flatMap (fileLog catalog)

/-- What a batch comes to: its results or its error, and its log. -/
structure Ending where
  outcome : Except BatchError (List Assembly)
  log : List LogEvent

/-- The ending of a batch that assembles its files one after the other. -/
def serial (catalog : Catalog) (jobs : Int) (cancelled : Bool) (sources : List Source) : Ending :=
  ⟨assembleAll catalog jobs cancelled sources, log catalog cancelled sources⟩

end Batch

end Dlx
