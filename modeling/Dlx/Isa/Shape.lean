import Dlx.Text.Bytes

/-!
# Operand shapes

This module defines:

* `Format`: the instruction formats I, J and R
* `Shape`: which operands an instruction takes, and the shape of every mnemonic
* `Slot`: one operand place, that is, how an operand is read and which bits of the word it fills
* `Shape.slots?`: the operand places of a shape in a format, in the order in which they are written

A shape that cannot be encoded in a format has no slots there at all, which is different from having
an empty list of them.
-/

namespace Dlx

/-! ## Formats -/

/-- The instruction formats. A format with another code can be named but hardly used. -/
inductive Format where
  | i
  | j
  | r
  | other (code : Int)
  deriving DecidableEq, Repr

namespace Format

def ofCode : Int → Format
  | 0 => .i
  | 1 => .j
  | 2 => .r
  | code => .other code

def name : Format → Bytes
  | .i => utf8 "I"
  | .j => utf8 "J"
  | .r => utf8 "R"
  | .other code => utf8 "Class(" ++ Bytes.integer code ++ utf8 ")"

end Format

/-! ## Shapes -/

/-- The operand shapes. An instruction of the shape `gprLabel`, for instance, takes a general
register and a label. -/
inductive Shape where
  | nullary
  | immediate
  | gpr
  | gprLabel
  | label16
  | gprFpr
  | fprGpr
  | fprFpr
  | dprDpr
  | dprFpr
  | fprDpr
  | gprUint
  | gprGprInt
  | gprGprUint
  | gprGprGpr
  | fprFprFpr
  | dprDprDpr
  | fprCompare
  | dprCompare
  | gprMemory
  | fprMemory
  | dprMemory
  | memoryGpr
  | memoryFpr
  | memoryDpr
  | label26
  deriving DecidableEq, Repr

namespace Shape

/-- All shapes, in the order of their codes. -/
def all : List Shape :=
  [.nullary, .immediate, .gpr, .gprLabel, .label16, .gprFpr, .fprGpr, .fprFpr, .dprDpr, .dprFpr,
    .fprDpr, .gprUint, .gprGprInt, .gprGprUint, .gprGprGpr, .fprFprFpr, .dprDprDpr, .fprCompare,
    .dprCompare, .gprMemory, .fprMemory, .dprMemory, .memoryGpr, .memoryFpr, .memoryDpr, .label26]

def code (s : Shape) : Nat :=
  all.idxOf s

def ofCode? (code : Int) : Option Shape :=
  if code < 0 then none else all[code.toNat]?

def name : Shape → Bytes
  | .nullary => utf8 "none"
  | .immediate => utf8 "int"
  | .gpr => utf8 "gpr"
  | .gprLabel => utf8 "gprlabel"
  | .label16 => utf8 "label16"
  | .gprFpr => utf8 "gprfpr"
  | .fprGpr => utf8 "fprgpr"
  | .fprFpr => utf8 "fprfpr"
  | .dprDpr => utf8 "dprdpr"
  | .dprFpr => utf8 "dprfpr"
  | .fprDpr => utf8 "fprdpr"
  | .gprUint => utf8 "gpruint"
  | .gprGprInt => utf8 "gprgprint"
  | .gprGprUint => utf8 "gprgpruint"
  | .gprGprGpr => utf8 "gprgprgpr"
  | .fprFprFpr => utf8 "fprfprfpr"
  | .dprDprDpr => utf8 "dprdprdpr"
  | .fprCompare => utf8 "fprfprcmp"
  | .dprCompare => utf8 "dprdprcmp"
  | .gprMemory => utf8 "gproff"
  | .fprMemory => utf8 "fproff"
  | .dprMemory => utf8 "dproff"
  | .memoryGpr => utf8 "offgpr"
  | .memoryFpr => utf8 "offfpr"
  | .memoryDpr => utf8 "offdpr"
  | .label26 => utf8 "label"

def nameOfCode (code : Int) : Bytes :=
  (ofCode? code).elim (utf8 "unknown") name

def mnemonics : Shape → List String
  | .nullary => ["nop", "rfe"]
  | .immediate => ["trap"]
  | .gpr => ["jr", "jalr"]
  | .gprLabel => ["beqz", "bnez"]
  | .label16 => ["bfpt", "bfpf"]
  | .label26 => ["j", "jal"]
  | .gprUint => ["lhi"]
  | .gprGprInt =>
    ["addi", "subi", "slli", "srli", "srai", "seqi", "snei", "slti", "sgti", "slei", "sgei"]
  | .gprGprUint =>
    ["addui", "subui", "andi", "ori", "xori", "sequi", "sneui", "sltui", "sgtui", "sleui", "sgeui"]
  | .gprFpr => ["movfp2i"]
  | .fprGpr => ["movi2fp"]
  | .fprFpr => ["cvtf2i", "cvti2f", "movf"]
  | .dprDpr => ["movd"]
  | .dprFpr => ["cvtf2d", "cvti2d"]
  | .fprDpr => ["cvtd2f", "cvtd2i"]
  | .gprGprGpr =>
    ["sll", "srl", "sra", "add", "addu", "sub", "subu", "and", "or", "xor", "seq", "sne", "slt",
      "sgt", "sle", "sge", "sequ", "sneu", "sltu", "sgtu", "sleu", "sgeu"]
  | .fprFprFpr => ["addf", "subf", "multf", "divf", "mult", "div", "multu", "divu"]
  | .dprDprDpr => ["addd", "subd", "multd", "divd"]
  | .fprCompare => ["eqf", "nef", "ltf", "gtf", "lef", "gef"]
  | .dprCompare => ["eqd", "ned", "ltd", "gtd", "led", "ged"]
  | .gprMemory => ["lb", "lbu", "lh", "lhu", "lw"]
  | .fprMemory => ["lf"]
  | .dprMemory => ["ld"]
  | .memoryGpr => ["sb", "sh", "sw"]
  | .memoryFpr => ["sf"]
  | .memoryDpr => ["sd"]

/-- Every mnemonic with its shape. -/
def table : List (Bytes × Shape) :=
  all.flatMap (fun s => s.mnemonics.map (fun mnemonic => (utf8 mnemonic, s)))

def ofMnemonic? (mnemonic : Bytes) : Option Shape :=
  table.lookup mnemonic

end Shape

/-! ## Slots -/

/-- The register files. Double registers are pairs of float registers, named by the even one. -/
inductive RegisterFile where
  | general
  | float
  | double
  deriving DecidableEq, Repr

/-- The register file with a given code; an unknown code is read as the float file. -/
def RegisterFile.ofCode : Int → RegisterFile
  | 0 => .general
  | 2 => .double
  | _ => .float

/-- Where a register number goes. An unused operand is checked and then dropped. -/
inductive RegisterField where
  | rs1
  | rs2
  | rd
  | unused
  deriving DecidableEq, Repr

inductive ImmediateField where
  | imm16
  | imm26
  deriving DecidableEq, Repr

/-- An operand place. A memory operand fills two fields: its base register the first source
register, its offset the 16-bit immediate. -/
inductive Slot where
  | register (file : RegisterFile) (field : RegisterField)
  | immediate (field : ImmediateField)
  | displacement (field : ImmediateField)
  | memory
  deriving DecidableEq, Repr

namespace Shape

/-- The files of the two operands of a register move, and nothing for another shape. -/
def moveFiles? : Shape → Option (RegisterFile × RegisterFile)
  | .gprFpr => some (.general, .float)
  | .fprGpr => some (.float, .general)
  | .fprFpr => some (.float, .float)
  | .dprDpr => some (.double, .double)
  | .dprFpr => some (.double, .float)
  | .fprDpr => some (.float, .double)
  | _ => none

/-- The operand places of a shape in format J. -/
def slotsJ? : Shape → Option (List Slot)
  | .nullary => some []
  | .immediate => some [.immediate .imm26]
  | .label26 => some [.displacement .imm26]
  | _ => none

/-- The operand places of a shape in format R. -/
def slotsR? : Shape → Option (List Slot)
  | .nullary => some []
  | .gprGprGpr => some [.register .general .rd, .register .general .rs1, .register .general .rs2]
  | .fprFprFpr => some [.register .float .rd, .register .float .rs1, .register .float .rs2]
  | .dprDprDpr => some [.register .double .rd, .register .double .rs1, .register .double .rs2]
  | .fprCompare => some [.register .float .rs1, .register .float .rs2]
  | .dprCompare => some [.register .double .rs1, .register .double .rs2]
  | s => s.moveFiles?.map (fun (target, source) => [.register target .rd, .register source .rs1])

/-- The operand places of a shape in format I. -/
def slotsI? : Shape → Option (List Slot)
  | .nullary => some []
  | .immediate => some [.immediate .imm16]
  | .gpr => some [.register .general .rs1]
  | .gprLabel => some [.register .general .rs1, .displacement .imm16]
  | .label16 => some [.displacement .imm16]
  | .gprUint => some [.register .general .rs1, .immediate .imm16]
  | .gprGprInt | .gprGprUint =>
    some [.register .general .rs2, .register .general .rs1, .immediate .imm16]
  | .gprMemory => some [.register .general .rs2, .memory]
  | .fprMemory => some [.register .float .rs2, .memory]
  | .dprMemory => some [.register .double .rs2, .memory]
  | .memoryGpr => some [.memory, .register .general .rs2]
  | .memoryFpr => some [.memory, .register .float .rs2]
  | .memoryDpr => some [.memory, .register .double .rs2]
  | s =>
    s.moveFiles?.map (fun (target, source) => [.register target .unused, .register source .rs1])

/-- The operand places of a shape in a format, or nothing when the shape cannot be encoded in it. -/
def slots? (s : Shape) : Format → Option (List Slot)
  | .i => s.slotsI?
  | .j => s.slotsJ?
  | .r => s.slotsR?
  | .other _ => if s = .nullary then some [] else none

/-- Whether the word of a shape in a format carries the function code: all of format R, and the
register moves of format I. -/
def hasFunction (s : Shape) : Format → Bool
  | .r => true
  | .i => s.moveFiles?.isSome
  | _ => false

end Shape

end Dlx
