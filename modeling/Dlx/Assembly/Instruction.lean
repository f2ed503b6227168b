import Dlx.Assembly.Operand
import Dlx.Isa.Catalog

/-!
# Encoding instructions

The word of an instruction is the union of its opcode, the bits that its operands fill, and the
function code where the format has one. Operands are read in the order in which they are written,
each by the slot that its shape gives it, so the first operand that cannot be read decides the
fault.
-/

namespace Dlx

def RegisterField.bits (field : RegisterField) (register : Register) : UInt32 :=
  match field with
  | .rs1 => register.val.toUInt32 <<< 21
  | .rs2 => register.val.toUInt32 <<< 16
  | .rd => register.val.toUInt32 <<< 11
  | .unused => 0

def ImmediateField.bits (field : ImmediateField) (value : UInt32) : UInt32 :=
  match field with
  | .imm16 => value &&& 0xFFFF
  | .imm26 => value &&& 0x3FFFFFF

def MemoryOperand.bits (operand : MemoryOperand) : UInt32 :=
  RegisterField.rs1.bits operand.base ||| ImmediateField.imm16.bits operand.offset

/-- The bits that a token fills when it stands in a slot of an instruction at `address`. -/
def Slot.bits (slot : Slot) (symbols : SymbolTable) (address : UInt32) (token : Bytes) :
    Except Fault UInt32 :=
  match slot with
  | .register file field => (Operand.register file token).map field.bits
  | .immediate field => (Operand.immediate symbols token).map (field.bits ∘ Operand.wordOfInt)
  | .displacement field => (Operand.displacement symbols address token).map field.bits
  | .memory => (Operand.memory symbols token).map MemoryOperand.bits

def Descriptor.functionBits (d : Descriptor) : UInt32 :=
  if d.function < 0 then 0 else (d.function.toNat % 64).toUInt32

def Descriptor.opcodeBits (d : Descriptor) : UInt32 :=
  (d.encoding &&& 0x3F) <<< 26

namespace Instruction

def operandAt (line : Line) (place : Nat) : Except Fault Bytes :=
  match line.operands[place]? with
  | some token => .ok token
  | none => .error ⟨.malformedOperand, line.text⟩

/-- The bits that the operands of a line fill, from the operand at `place` on. -/
def operandBits (line : Line) (symbols : SymbolTable) :
    (place : Nat) → List Slot → Except Fault UInt32
  | _, [] => .ok 0
  | place, slot :: slots => do
    let token ← operandAt line place
    let bits ← slot.bits symbols line.address token
    let others ← operandBits line symbols (place + 1) slots
    return bits ||| others

/-- The token that shows a shape in a format that cannot hold it. -/
def mismatchToken (mnemonic : Bytes) (shape : Shape) (format : Format) : Bytes :=
  mnemonic ++ utf8 " (" ++ shape.name ++ utf8 " in " ++ format.name ++ utf8 "-type)"

def encode (line : Line) (symbols : SymbolTable) (catalog : Catalog) : Except Fault UInt32 := do
  let descriptor ← catalog.find line.mnemonic
  match Shape.ofMnemonic? line.mnemonic with
  | none => throw ⟨.shapeMismatch, line.mnemonic⟩
  | some shape =>
    match shape.slots? descriptor.format with
    | none => throw ⟨.shapeMismatch, mismatchToken line.mnemonic shape descriptor.format⟩
    | some slots =>
      let body ← operandBits line symbols 0 slots
      let function := if shape.hasFunction descriptor.format then descriptor.functionBits else 0
      return descriptor.opcodeBits ||| body ||| function

end Instruction

end Dlx
