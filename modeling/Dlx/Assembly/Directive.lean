import Dlx.Assembly.Operand
import Dlx.Assembly.Row
import Dlx.Text.Binary
import Dlx.Text.Literal

/-!
# Data directives

A data directive has one element per operand. The element is made in two steps that belong to the
two passes: `Directive.elements` gives its size and its value, so that the lines behind it can be
placed, and `Directive.encode` gives the hexadecimal text of its bytes, once every label is known.
-/

namespace Dlx

namespace Directive

/-- The size and the value of an operand, without an address. The value of a string literal is what
it denotes; a terminated string has one byte more. -/
def element (kind : LineKind) (operand : Bytes) : Except Fault Element :=
  match kind with
  | .ascii =>
    match Literal.value? operand with
    | some text => .ok ⟨0, text.length.toUInt32, text⟩
    | none => .error ⟨.malformedDirective, operand⟩
  | .asciiz =>
    match Literal.value? operand with
    | some text => .ok ⟨0, text.length.toUInt32 + 1, text⟩
    | none => .error ⟨.malformedDirective, operand⟩
  | .double => .ok ⟨0, 8, operand⟩
  | _ => .ok ⟨0, 4, operand⟩

/-- Places elements one behind the other from `address` on. -/
def placeFrom : (address : UInt32) → List Element → List Element
  | _, [] => []
  | address, e :: rest => { e with address } :: placeFrom (address + e.size) rest

/-- The address behind elements that are placed from `address` on. -/
def endOf (address : UInt32) (elements : List Element) : UInt32 :=
  elements.foldl (fun address e => address + e.size) address

/-- The elements of a data directive, without addresses. It needs an operand. -/
def elements (line : Line) : Except Fault (List Element) :=
  if line.operands.isEmpty then .error ⟨.malformedDirective, line.mnemonic⟩
  else line.operands.mapM (element line.kind)

def hexText (text : Bytes) : Bytes :=
  text.flatMap (fun b => Bytes.hex 2 b.toNat)

def realText (format : Binary.Format) (value : Bytes) : Except Fault Bytes :=
  match Binary.bits? format value with
  | some bits => .ok (Bytes.hex (format.width / 4) bits)
  | none => .error ⟨.malformedDirective, value⟩

def elementText (kind : LineKind) (symbols : SymbolTable) (value : Bytes) : Except Fault Bytes :=
  match kind with
  | .ascii => .ok (hexText value)
  | .asciiz => .ok (hexText value ++ utf8 "00")
  | .double => realText Binary.double value
  | .float => realText Binary.single value
  | _ => (Operand.word symbols value).map hex8

def elementRow (line : Line) (symbols : SymbolTable) (e : Element) : Except Fault Row :=
  (elementText line.kind symbols e.value).map (fun text => ⟨e.address, .text text, some line⟩)

/-- The rows of a line: one per element of a data directive, none for another line. -/
def encode (line : Line) (symbols : SymbolTable) : Except Fault (List Row) :=
  if line.kind.isData then line.elements.mapM (elementRow line symbols) else .ok []

end Directive

end Dlx
