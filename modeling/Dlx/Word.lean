import Dlx.Text.Bytes

/-!
# Instruction words

A word has 32 bits. The upper six are the opcode; below them stand, depending on the class of the
instruction, three register numbers and a function code, two register numbers and a 16-bit
immediate, or a 26-bit displacement. `Word.decode` reads all the fields at once, immediates with
their sign extended.
-/

namespace Dlx

namespace Word

def size : UInt32 := 4

/-- The fields of an instruction word. Which of them mean something depends on the instruction. -/
structure Fields where
  opcode : UInt32
  rs1 : UInt32
  rs2 : UInt32
  rd : UInt32
  function : UInt32
  imm16 : UInt32
  imm26 : UInt32
  deriving DecidableEq, Repr

/-- The bit of weight `2 ^ i`, or zero when a word has no such bit. -/
def bit (i : Nat) : UInt32 :=
  if i < 32 then 1 <<< i.toUInt32 else 0

/-- The bits of weight `2 ^ i` and more. -/
def bitsFrom (i : Nat) : UInt32 :=
  if i < 32 then 0xFFFFFFFF <<< i.toUInt32 else 0

/-- A value of `bits` bits with its sign bit copied into all the bits above it. -/
def signExtend (value : UInt32) (bits : Nat) : UInt32 :=
  if bits ≠ 0 ∧ value &&& bit (bits - 1) ≠ 0 then value ||| bitsFrom bits else value

def decode (word : UInt32) : Fields where
  opcode := word >>> 26 &&& 0x3F
  rs1 := word >>> 21 &&& 0x1F
  rs2 := word >>> 16 &&& 0x1F
  rd := word >>> 11 &&& 0x1F
  function := word &&& 0x3F
  imm16 := signExtend (word &&& 0xFFFF) 16
  imm26 := signExtend (word &&& 0x3FFFFFF) 26

def signed (word : UInt32) : Int :=
  word.toInt32.toInt

/-- The fields as they are shown in a listing. -/
def Fields.text (f : Fields) : Bytes :=
  utf8 "op=" ++ Bytes.decimal f.opcode.toNat ++
    utf8 " rs1=" ++ Bytes.decimal f.rs1.toNat ++
    utf8 " rs2=" ++ Bytes.decimal f.rs2.toNat ++
    utf8 " rd=" ++ Bytes.decimal f.rd.toNat ++
    utf8 " fn=" ++ Bytes.decimal f.function.toNat ++
    utf8 " imm=" ++ Bytes.integer (signed f.imm16)

end Word

end Dlx
