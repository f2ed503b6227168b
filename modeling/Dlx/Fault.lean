import Dlx.Text.Bytes
import Dlx.Text.Lines

/-!
# Faults

What can be wrong with a line of a source: a cause, and the token that shows it. A fault found while
a file is assembled gets the place of its line once, when it leaves the pass that found it; it is
then a diagnostic.
-/

namespace Dlx

inductive Cause where
  | unknownOpcode
  | unresolvedLabel
  | oddDouble
  | malformedDirective
  | malformedOperand
  | shapeMismatch
  deriving DecidableEq, Repr

def Cause.text : Cause → Bytes
  | .unknownOpcode => utf8 "asm: unknown opcode"
  | .unresolvedLabel => utf8 "asm: unresolved label"
  | .oddDouble => utf8 "asm: double register must be even"
  | .malformedDirective => utf8 "asm: malformed directive operand"
  | .malformedOperand => utf8 "asm: malformed operand"
  | .shapeMismatch => utf8 "asm: operand shape does not match instruction class"

/-- A cause and the token that shows it. -/
structure Fault where
  cause : Cause
  token : Bytes
  deriving DecidableEq, Repr

def Fault.message (f : Fault) : Bytes :=
  f.cause.text ++ utf8 ": '" ++ f.token ++ utf8 "'"

/-- A fault with its place: the file, the line, and the address of the line. -/
structure Diagnostic where
  file : Bytes
  lineno : Int
  address : UInt32
  fault : Fault
  deriving DecidableEq, Repr

def Diagnostic.message (d : Diagnostic) : Bytes :=
  d.file ++ utf8 ":" ++ Bytes.integer d.lineno ++ utf8 ": [" ++ hex8 d.address ++ utf8 "] " ++
    d.fault.cause.text ++ utf8 " near '" ++ d.fault.token ++ utf8 "'"

/-- Why a file was not assembled. -/
inductive AssemblyError where
  | at (diagnostic : Diagnostic)
  | overlong (file : Bytes) (lineno : Nat)
  deriving DecidableEq, Repr

def AssemblyError.message : AssemblyError → Bytes
  | .at diagnostic => diagnostic.message
  | .overlong file lineno =>
    file ++ utf8 ":" ++ Bytes.decimal lineno ++ utf8 ": " ++ Lines.overlongText

end Dlx
