import Dlx.Assembly.Assemble

/-!
# Writing rows

Rows leave the assembler in two ways: through a writer, which takes a finished list of them, and as
a stream, which ends with an error item when the file has one. A writer may fail at any row and when
it is flushed; the first failure ends the writing.
-/

namespace Dlx

/-- Something that takes rows. Both operations give the state after them and what went wrong. -/
structure RowWriter (σ ε : Type) where
  write : σ → Row → σ × Option ε
  flush : σ → σ × Option ε

namespace RowWriter

def writeAll {σ ε : Type} (w : RowWriter σ ε) : σ → List Row → σ × Option ε
  | s, [] => w.flush s
  | s, row :: rest =>
    match w.write s row with
    | (s', none) => w.writeAll s' rest
    | (s', some e) => (s', some e)

/-- The state of a text writer: the lines it still holds, the latest first, and its sink. -/
structure Buffered (σ : Type) where
  held : List Bytes
  sink : σ
  deriving DecidableEq, Repr

/-- Writes rows as lines of text. The text goes to a sink in one piece when the writer is flushed;
an empty text does not. -/
def text {σ ε : Type} (sink : σ → Bytes → σ × Option ε) : RowWriter (Buffered σ) ε where
  write b row := ({ b with held := row.renderLine :: b.held }, none)
  flush b :=
    if b.held.isEmpty then (b, none)
    else
      let (s, error) := sink b.sink b.held.reverse.flatten
      (⟨[], s⟩, error)

end RowWriter

/-- The items of a streamed assembly: its rows, or its error alone. A stream that is cancelled from
the start has none. -/
def streamItems (catalog : Catalog) (cancelled : Bool) (file source : Bytes) :
    List (Except AssemblyError Row) :=
  if cancelled then []
  else match assemble catalog file source with
    | .ok assembly => assembly.rows.map .ok
    | .error error => [.error error]

end Dlx
