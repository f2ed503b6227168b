import Dlx.Assembly.Symbols
import Dlx.Fault
import Dlx.Isa.Shape
import Dlx.Text.Numeral

/-!
# Operands

How the operand tokens of instructions and data directives are read:

* `Operand.register`: a register number, with an optional letter for its file
* `Operand.immediate`: an integer literal or a label
* `Operand.displacement`: an integer literal, or the distance from the next instruction to a label
* `Operand.memory`: `offset(base)`, or an offset alone
* `Operand.word`: the operand of a word directive, with a number syntax of its own
-/

namespace Dlx

abbrev Register := Fin 32

structure MemoryOperand where
  offset : UInt32
  base : Register
  deriving DecidableEq, Repr

namespace Operand

/-- A whole number as a word, modulo `2 ^ 32`. -/
def wordOfInt (value : Int) : UInt32 :=
  (value % 0x100000000).toNat.toUInt32

/-! ## Registers -/

def isFileLetter (file : RegisterFile) (b : UInt8) : Bool :=
  match file with
  | .general => b == 0x72 || b == 0x52
  | _ => b == 0x66 || b == 0x46

/-- A register token without the letter of its file. -/
def registerDigits (file : RegisterFile) : Bytes → Bytes
  | [] => []
  | b :: rest => if isFileLetter file b then rest else b :: rest

/-- The number of a register of a file. Double registers have even numbers. -/
def register (file : RegisterFile) (token : Bytes) : Except Fault Register :=
  match Numeral.natural 10 8 (registerDigits file token) with
  | .error _ => .error ⟨.malformedOperand, token⟩
  | .ok number =>
    if h : number < 32 then
      if file = .double ∧ number % 2 = 1 then .error ⟨.oddDouble, token⟩ else .ok ⟨number, h⟩
    else .error ⟨.malformedOperand, token⟩

/-! ## Immediates -/

def literal? (token : Bytes) : Option Int :=
  (Numeral.signedLiteral 64 token).toOption

/-- The value of an immediate: an integer literal, or the address of a label. -/
def immediate (symbols : SymbolTable) (token : Bytes) : Except Fault Int :=
  match literal? token with
  | some value => .ok value
  | none =>
    match symbols.resolve? token with
    | some address => .ok address.toNat
    | none => .error ⟨.unresolvedLabel, token⟩

/-- The displacement of a branch at `address`: an integer literal as it is, or the distance from the
instruction behind the branch to a label. -/
def displacement (symbols : SymbolTable) (address : UInt32) (token : Bytes) : Except Fault UInt32 :=
  match literal? token with
  | some value => .ok (wordOfInt value)
  | none =>
    match symbols.resolve? token with
    | some target => .ok (target - (address + 4))
    | none => .error ⟨.unresolvedLabel, token⟩

/-! ## Memory operands -/

def isParenthesis (b : UInt8) : Bool :=
  b == 0x28 || b == 0x29

/-- The two parts of `offset(base)`. The base is not empty and holds no parenthesis, and the offset
holds no newline. -/
def splitMemory? (token : Bytes) : Option (Bytes × Bytes) :=
  match token.reverse with
  | 0x29 :: inner =>
    let base := inner.takeWhile (fun b => !isParenthesis b)
    match inner.dropWhile (fun b => !isParenthesis b) with
    | 0x28 :: offset =>
      if base.isEmpty || offset.contains 0x0A then none else some (offset.reverse, base.reverse)
    | _ => none
  | _ => none

/-- A memory operand. An empty offset is zero, and an offset alone is taken from register zero. -/
def memory (symbols : SymbolTable) (token : Bytes) : Except Fault MemoryOperand :=
  match splitMemory? token with
  | some (offset, base) => do
    let value ← if offset.isEmpty then pure 0 else immediate symbols offset
    let base ← register .general base
    return ⟨wordOfInt value, base⟩
  | none => do
    let value ← immediate symbols token
    return ⟨wordOfInt value, 0⟩

/-! ## Words -/

def hexDigits? : Bytes → Option Bytes
  | 0x30 :: 0x78 :: digits => some digits
  | 0x30 :: 0x58 :: digits => some digits
  | _ => none

/-- The value of a word directive's operand: a hexadecimal literal after `0x` with an optional minus
sign, a signed decimal literal, or a label. -/
def word (symbols : SymbolTable) (token : Bytes) : Except Fault UInt32 :=
  let digits := Bytes.dropStart (utf8 "-") token
  match hexDigits? digits with
  | some hex =>
    match Numeral.natural 16 64 hex with
    | .error _ => .error ⟨.malformedDirective, token⟩
    | .ok value => .ok (wordOfInt (if digits.length < token.length then -(value : Int) else value))
  | none =>
    match Numeral.integer 10 64 token with
    | .ok value => .ok (wordOfInt value)
    | .error _ =>
      match symbols.resolve? token with
      | some address => .ok address
      | none => .error ⟨.malformedDirective, token⟩

end Operand

end Dlx
