import Dlx.Assembly.Directive
import Dlx.Source.Token
import Dlx.UntilError

/-!
# Layout

The first pass reads a file line by line and gives addresses to its lines. Its state is a `Cursor`:
the address of the last slot, and how far behind it the next one starts. Addresses wrap at `2 ^ 32`.

* `Cursor.place`: one line; a line that cannot be placed leaves no trace
* `Layout.run`: the lines of a file up to the first that cannot be placed
* `layout`: the program of a file, or the first thing that is wrong with it

The first space directive of a file is placed at the last slot itself and not behind it.
-/

namespace Dlx

structure Cursor where
  /-- The address of the last slot. -/
  slot : UInt32
  /-- The distance from there to the next slot. -/
  gap : UInt32
  /-- Whether a space directive has been placed. -/
  spaced : Bool
  deriving DecidableEq, Repr

/-- The smallest multiple of `boundary` from `address` on, modulo `2 ^ 32`. -/
def alignUp (address boundary : UInt32) : UInt32 :=
  if address % boundary = 0 then address else address + (boundary - address % boundary)

namespace Cursor

def start : Cursor := ⟨0, 0, false⟩

def next (c : Cursor) : UInt32 := c.slot + c.gap

/-- The cursor at an address, with nothing pending. -/
def moveTo (c : Cursor) (address : UInt32) : Cursor := ⟨address, 0, c.spaced⟩

/-! ## Operands of layout directives -/

/-- The address of a section: hexadecimal digits after an optional mark, or zero without an
operand. -/
def sectionAddress (operands : List Bytes) : Except Fault UInt32 :=
  match operands with
  | [] => .ok 0
  | token :: _ =>
    let digits := Bytes.dropStart (utf8 "0X") (Bytes.dropStart (utf8 "0x") token)
    match Numeral.natural 16 32 digits with
    | .ok address => .ok address.toUInt32
    | .error _ => .error ⟨.malformedDirective, token⟩

/-- The number that an alignment or a space directive is given. -/
def amount (operands : List Bytes) : Except Fault Nat :=
  match operands with
  | [] => .error ⟨.malformedDirective, []⟩
  | token :: _ =>
    match Numeral.literal 32 token with
    | .ok value => .ok value
    | .error _ => .error ⟨.malformedDirective, token⟩

/-- The boundary of an alignment directive: a power of two that fits a word. -/
def boundary (operands : List Bytes) : Except Fault UInt32 := do
  let n ← amount operands
  if n ≤ 31 then return 1 <<< n.toUInt32
  else throw ⟨.malformedDirective, operands.headD []⟩

/-! ## Placing a line -/

def placed (line : Line) (address : UInt32) : Option Line :=
  some { line with address }

/-- A line that takes no memory is kept only when it carries a label. -/
def placedLabel (line : Line) (address : UInt32) : Option Line :=
  if line.labels.isEmpty then none else placed line address

/-- Where a space directive goes: the first one of a file at the last slot. -/
def spaceStart (c : Cursor) : UInt32 :=
  if c.spaced then c.next else c.slot

/-- Places a line: the cursor behind it, and the line with its address when it is kept. -/
def place (c : Cursor) (line : Line) : Except Fault (Cursor × Option Line) :=
  match line.kind with
  | .reset | .comment => .ok (c, none)
  | .label => .ok (c.moveTo c.next, placed line c.next)
  | .text | .data => do
    let address ← sectionAddress line.operands
    return (c.moveTo address, placedLabel line address)
  | .align => do
    let boundary ← boundary line.operands
    let address := alignUp c.next boundary
    return (c.moveTo address, placedLabel line address)
  | .space => do
    let size ← amount line.operands
    return (⟨c.spaceStart + size.toUInt32, 0, true⟩, placed line c.spaceStart)
  | .instruction => .ok (⟨c.next, 4, c.spaced⟩, placed line c.next)
  | .ascii | .asciiz | .double | .float | .word => do
    let elements ← Directive.elements line
    let line := { line with elements := Directive.placeFrom c.next elements }
    return (c.moveTo (Directive.endOf c.next elements), placed line c.next)

end Cursor

/-! ## Programs -/

/-- The placed lines of a file, in the order of the file. -/
structure Program where
  file : Bytes
  lines : List Line
  deriving DecidableEq, Repr

namespace Program

def takesMemory (line : Line) : Bool :=
  line.kind = .instruction || line.kind = .space || line.kind.isData

/-- The first line that takes memory at an address. -/
def lineAt? (p : Program) (address : UInt32) : Option Line :=
  p.lines.find? (fun line => line.address = address && takesMemory line)

end Program

/-! ## The pass -/

namespace Layout

/-- The pass between two lines: the cursor, the number of lines read, and the lines placed, the
latest first. -/
structure Pass where
  cursor : Cursor
  lineno : Nat
  placed : List Line
  deriving DecidableEq, Repr

def Pass.start : Pass := ⟨Cursor.start, 0, []⟩

def Pass.keep (p : Pass) (placement : Cursor × Option Line) : Pass :=
  ⟨placement.1, p.lineno + 1, placement.2.toList ++ p.placed⟩

def Pass.step (file : Bytes) (p : Pass) (raw : Bytes) : Except AssemblyError Pass :=
  match Line.ofTokens? (tokenize raw) (p.lineno + 1 : Nat) with
  | none => .ok { p with lineno := p.lineno + 1 }
  | some line =>
    match p.cursor.place line with
    | .ok placement => .ok (p.keep placement)
    | .error fault => .error (.at ⟨file, line.lineno, p.cursor.next, fault⟩)

/-- Reads a file: the lines placed, and what stopped the reading. -/
def run (file source : Bytes) : List Line × Option AssemblyError :=
  let read := Lines.ofBytes source
  let (pass, error) := runUntil (Pass.step file) Pass.start read.lines
  let overlong := if read.overlong then some (.overlong file (pass.lineno + 1)) else none
  (pass.placed.reverse, error.or overlong)

end Layout

def layout (file source : Bytes) : Except AssemblyError Program :=
  match Layout.run file source with
  | (lines, none) => .ok ⟨file, lines⟩
  | (_, some error) => .error error

end Dlx
