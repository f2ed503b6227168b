import Dlx.Assembly.Assemble
import Dlx.Command.Status
import Dlx.Text.Table
import Dlx.Text.Template
import Dlx.Word

/-!
# Listings

Two views of an assembled file for a reader: the listing, a table of its rows with the fields of
each word and the source line it came from; and the dump of its symbol table.
-/

namespace Dlx

namespace Listing

/-- The title of the listing of a file: its name, read as a template. -/
def title (file : Bytes) : List Char :=
  Template.expand (Utf8.chars file)

/-- The cells of a row: address, value, fields of a word, number and text of the source line. -/
def cells (row : Row) : List (List Char) :=
  [hex8 row.address, row.value, row.word?.elim [] (fun word => (Word.decode word).text),
    Bytes.integer row.lineno, row.source.elim [] Line.text].map Utf8.chars

/-- The listing of a list of rows. Numbers stand on the right; without rows every column holds
nothing but numbers. -/
def table (file : Bytes) (rows : List Row) (symbols : SymbolTable) : Table where
  title := title file
  columns :=
    if rows.isEmpty then [.right, .right, .right, .right, .right]
    else [.left, .left, .left, .right, .left]
  header := ["ADDRESS", "VALUE", "FIELDS", "LINE", "SOURCE"].map String.toList
  rows := rows.map cells
  footer := [[], [], [], "LABELS".toList, Utf8.chars (Bytes.decimal symbols.size)]

/-- The listing as text, without a newline at its end. -/
def render (file : Bytes) (rows : List Row) (symbols : SymbolTable) : Bytes :=
  (table file rows symbols).render

/-! ## Symbol tables -/

def bold (color : Nat) (text : Bytes) : Bytes :=
  Status.escape ++ utf8 "[" ++ Bytes.decimal color ++ utf8 "m" ++ Status.paint 1 text

/-- A label of a dump with its address, at a distance that lines the addresses up. -/
def symbolLine (longest : Nat) (label : Bytes) (address : UInt32) : Bytes :=
  utf8 "  " ++ bold 31 (utf8 "\"") ++ Status.paint 31 label ++ bold 31 (utf8 "\"") ++ utf8 ": " ++
    List.replicate (longest - label.length) 0x20 ++ bold 34 (Bytes.decimal address.toNat) ++
      utf8 ",\n"

/-- The dump of a symbol table, its labels in byte order. -/
def dump (symbols : SymbolTable) : Bytes :=
  let entries := symbols.sorted
  let longest := (entries.map (fun e => e.1.length)).foldl max 0
  let body := entries.flatMap (fun (label, address) => symbolLine longest label address)
  utf8 "asm." ++ Status.paint 32 (utf8 "SymbolTable") ++ utf8 "\x7b" ++
    (if entries.isEmpty then [] else utf8 "\n" ++ body) ++ utf8 "\x7d\n"

end Listing

end Dlx
