import Dlx.Assembly.Instruction
import Dlx.Assembly.Layout

/-!
# Assembling a file

Both passes over one file. The first places the lines and collects the labels, the second encodes
the lines in order. An error of the first pass therefore comes before any error of the second,
wherever their lines stand, and a file with an error has no rows at all.
-/

namespace Dlx

structure Assembly where
  program : Program
  symbols : SymbolTable
  rows : List Row
  deriving DecidableEq, Repr

def encodeLine (symbols : SymbolTable) (catalog : Catalog) (line : Line) :
    Except Fault (List Row) :=
  if line.kind = .instruction then
    (Instruction.encode line symbols catalog).map
      (fun word => [⟨line.address, .word word, some line⟩])
  else Directive.encode line symbols

/-- The rows of a placed line of a file, with the place of the line in a fault. -/
def encodeLineOf (file : Bytes) (symbols : SymbolTable) (catalog : Catalog) (line : Line) :
    Except AssemblyError (List Row) :=
  (encodeLine symbols catalog line).mapError
    (fun fault => .at ⟨file, line.lineno, line.address, fault⟩)

/-- The second pass: the rows of a program. -/
def encode (program : Program) (symbols : SymbolTable) (catalog : Catalog) :
    Except AssemblyError (List Row) :=
  (program.lines.mapM (encodeLineOf program.file symbols catalog)).map List.flatten

/-- Both passes. -/
def assemble (catalog : Catalog) (file source : Bytes) : Except AssemblyError Assembly := do
  let program ← layout file source
  let symbols := SymbolTable.ofLines program.lines
  let rows ← encode program symbols catalog
  return ⟨program, symbols, rows⟩

end Dlx
