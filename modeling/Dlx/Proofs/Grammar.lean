import Dlx.Proofs.Pieces

/-!
# The operands of an instruction

What an instruction is written with depends on its shape alone; its format only decides which bits
of the word each operand fills.

* `Shape.grammar`: the operands of a shape, in the order in which they are written
* `Slot.mask`: the bits that the operand in a slot can fill
* `Shape.masks_of_slots`: the masks of a shape lie apart from one another, from the opcode and from
  the function code
* `Instruction.exists_pieces_of_encode`: hence the bits under a mask are the piece of that operand
  alone
-/

namespace Dlx

/-! ## What is written -/

/-- How an operand is read. -/
inductive OperandKind where
  | register (file : RegisterFile)
  | immediate
  | displacement
  | memory
  deriving DecidableEq, Repr

/-- The operands that an instruction of a shape is written with. -/
def Shape.grammar : Shape → List OperandKind
  | .nullary => []
  | .immediate => [.immediate]
  | .gpr => [.register .general]
  | .gprLabel => [.register .general, .displacement]
  | .label16 | .label26 => [.displacement]
  | .gprFpr => [.register .general, .register .float]
  | .fprGpr => [.register .float, .register .general]
  | .fprFpr | .fprCompare => [.register .float, .register .float]
  | .dprDpr | .dprCompare => [.register .double, .register .double]
  | .dprFpr => [.register .double, .register .float]
  | .fprDpr => [.register .float, .register .double]
  | .gprUint => [.register .general, .immediate]
  | .gprGprInt | .gprGprUint => [.register .general, .register .general, .immediate]
  | .gprGprGpr => [.register .general, .register .general, .register .general]
  | .fprFprFpr => [.register .float, .register .float, .register .float]
  | .dprDprDpr => [.register .double, .register .double, .register .double]
  | .gprMemory => [.register .general, .memory]
  | .fprMemory => [.register .float, .memory]
  | .dprMemory => [.register .double, .memory]
  | .memoryGpr => [.memory, .register .general]
  | .memoryFpr => [.memory, .register .float]
  | .memoryDpr => [.memory, .register .double]

/-- How the operand in a slot is read. -/
def Slot.kind : Slot → OperandKind
  | .register file _ => .register file
  | .immediate _ => .immediate
  | .displacement _ => .displacement
  | .memory => .memory

namespace Shape

theorem eq_of_slots_other {shape : Shape} {code : Int} {slots : List Slot}
    (h : shape.slots? (.other code) = some slots) : shape = .nullary ∧ slots = [] := by
  by_cases hnullary : shape = .nullary
  · rw [slots?, if_pos hnullary] at h
    cases h
    exact ⟨hnullary, rfl⟩
  · rw [slots?, if_neg hnullary] at h
    cases h

/-- Whatever format a shape is encoded in, its slots take the operands that the shape is written
with. -/
theorem map_kind_slots {shape : Shape} {format : Format} {slots : List Slot}
    (h : shape.slots? format = some slots) : slots.map Slot.kind = shape.grammar := by
  cases format with
  | other code =>
      rcases eq_of_slots_other h with ⟨rfl, rfl⟩
      rfl
  | i | j | r => cases shape <;> cases h <;> rfl

end Shape

/-! ## Where it goes -/

/-- The bits of a register field. -/
def RegisterField.mask : RegisterField → UInt32
  | .rs1 => 0x03E00000
  | .rs2 => 0x001F0000
  | .rd => 0x0000F800
  | .unused => 0

/-- The bits of an immediate field. -/
def ImmediateField.mask : ImmediateField → UInt32
  | .imm16 => 0x0000FFFF
  | .imm26 => 0x03FFFFFF

/-- The bits that the operand in a slot can fill. -/
def Slot.mask : Slot → UInt32
  | .register _ field => field.mask
  | .immediate field | .displacement field => field.mask
  | .memory => 0x03E0FFFF

/-- The masks of a shape lie apart from one another and below the opcode, and where the word has a
function code they lie above it. -/
theorem Shape.masks_of_slots {shape : Shape} {format : Format} {slots : List Slot}
    (h : shape.slots? format = some slots) :
    slots.Pairwise (fun a b => a.mask &&& b.mask = 0) ∧
      ∀ slot ∈ slots, 0xFC000000 &&& slot.mask = 0 ∧
        (shape.hasFunction format = true → 0x3F &&& slot.mask = 0) := by
  cases format with
  | other code =>
      rcases eq_of_slots_other h with ⟨rfl, rfl⟩
      exact ⟨.nil, by simp⟩
  | i | j | r => cases shape <;> cases h <;> decide

theorem Word.or_and (a b mask : UInt32) : (a ||| b) &&& mask = a &&& mask ||| b &&& mask := by
  rw [← UInt32.toNat_inj]
  simp only [UInt32.toNat_and, UInt32.toNat_or, Nat.and_or_distrib_right]

/-- A word under a mask shows nothing under another mask that lies apart. -/
theorem Word.and_eq_zero {word mask other : UInt32} (hword : word &&& mask = word)
    (hapart : mask &&& other = 0) : word &&& other = 0 := by
  calc
    word &&& other = word &&& mask &&& other := by rw [hword]
    _ = word &&& (mask &&& other) := UInt32.and_assoc word mask other
    _ = 0 := by rw [hapart, UInt32.and_zero]

theorem Word.and_of_within {word mask larger : UInt32} (hword : word &&& mask = word)
    (hwithin : mask &&& larger = mask) : word &&& larger = word := by
  calc
    word &&& larger = word &&& mask &&& larger := by rw [hword]
    _ = word &&& (mask &&& larger) := UInt32.and_assoc word mask larger
    _ = word := by rw [hwithin, hword]

/-- A word that shows nothing under a mask shows nothing under a part of the mask. -/
theorem Word.and_part_eq_zero {word mask part : UInt32} (hword : word &&& mask = 0)
    (hpart : part &&& mask = part) : word &&& part = 0 := by
  rw [UInt32.and_comm]
  apply Word.and_eq_zero hpart
  rw [UInt32.and_comm]
  exact hword

/-- A piece fills no bits outside its place. -/
theorem Word.Carries.and_mask {word mask : UInt32} {value place width : Nat}
    (h : Word.Carries word value place width) (hmask : mask.toNat = (2 ^ width - 1) * 2 ^ place) :
    word &&& mask = word := by
  rw [← UInt32.toNat_inj, UInt32.toNat_and, h.toNat_eq, hmask, ← Nat.shiftLeft_eq,
    ← Nat.shiftLeft_eq, ← Nat.shiftLeft_and_distrib, Nat.and_two_pow_sub_one_eq_mod,
    Nat.mod_eq_of_lt h.lt]

theorem RegisterField.and_mask (field : RegisterField) (r : Register) :
    field.bits r &&& field.mask = field.bits r := by
  cases field with
  | unused => exact UInt32.and_zero
  | rs1 | rs2 | rd => exact (carries rfl r).and_mask (by decide)

theorem ImmediateField.and_mask (field : ImmediateField) (value : UInt32) :
    field.bits value &&& field.mask = field.bits value := by
  cases field with
  | imm16 | imm26 => exact (carries _ value).and_mask (by decide)

theorem MemoryOperand.and_mask (operand : MemoryOperand) :
    operand.bits &&& Slot.memory.mask = operand.bits := by
  have hbase : RegisterField.rs1.bits operand.base &&& Slot.memory.mask =
      RegisterField.rs1.bits operand.base :=
    Word.and_of_within (RegisterField.rs1.and_mask operand.base) (by decide)
  have hoffset : ImmediateField.imm16.bits operand.offset &&& Slot.memory.mask =
      ImmediateField.imm16.bits operand.offset :=
    Word.and_of_within (ImmediateField.imm16.and_mask operand.offset) (by decide)
  rw [bits, Word.or_and, hbase, hoffset]

/-- The opcode and the function code fill nothing under the mask of an operand. -/
theorem Descriptor.frame_apart {d : Descriptor} {shape : Shape} {slots : List Slot}
    (h : shape.slots? d.format = some slots) {slot : Slot} (hslot : slot ∈ slots) :
    d.opcodeBits &&& slot.mask = 0 ∧
      (if shape.hasFunction d.format then d.functionBits else 0) &&& slot.mask = 0 := by
  rcases (Shape.masks_of_slots h).2 slot hslot with ⟨hopcode, hfunction⟩
  refine ⟨Word.and_eq_zero (d.carries_opcode.and_mask (by decide)) hopcode, ?_⟩
  split
  · rename_i hhas
    exact Word.and_eq_zero (d.carries_function.and_mask (by decide)) (hfunction hhas)
  · exact UInt32.zero_and

namespace Instruction

variable {line : Line} {symbols : SymbolTable} {place : Nat} {bits : UInt32}

/-- An operand fills no bits outside its mask. -/
theorem PieceAt.and_mask {slot : Slot} {piece : UInt32}
    (h : PieceAt line symbols place slot piece) :
    piece &&& slot.mask = piece := by
  cases slot with
  | register file field =>
      rcases h with ⟨r, -, rfl⟩
      exact field.and_mask r
  | immediate field | displacement field =>
      rcases h with ⟨value, -, rfl⟩
      exact field.and_mask _
  | memory =>
      rcases h with ⟨operand, -, rfl⟩
      exact operand.and_mask

/-- The operands of a line fill nothing under a mask that lies apart from theirs. -/
theorem and_operandBits_eq_zero {slots : List Slot} {mask : UInt32}
    (h : operandBits line symbols place slots = .ok bits)
    (hapart : ∀ slot ∈ slots, slot.mask &&& mask = 0) : bits &&& mask = 0 := by
  induction slots generalizing place bits with
  | nil =>
      cases operandBits_nil h
      exact UInt32.zero_and
  | cons slot slots ih =>
      rcases operandBits_cons h with ⟨piece, others, hpiece, hothers, rfl⟩
      have hhere : piece &&& mask = 0 :=
        Word.and_eq_zero hpiece.and_mask (hapart slot List.mem_cons_self)
      have hrest : others &&& mask = 0 :=
        ih hothers fun other hmem => hapart other (List.mem_cons_of_mem slot hmem)
      rw [Word.or_and, hhere, hrest, UInt32.or_zero]

/-- Where the masks of the slots lie apart, the bits under a mask are the piece of the operand
there. -/
theorem pieceAt_of_operandBits {slots : List Slot} {slot : Slot} {i : Nat}
    (h : operandBits line symbols place slots = .ok bits)
    (hapart : slots.Pairwise (fun a b => a.mask &&& b.mask = 0)) (hslot : slots[i]? = some slot) :
    PieceAt line symbols (place + i) slot (bits &&& slot.mask) := by
  induction slots generalizing place bits i with
  | nil => cases hslot
  | cons first rest ih =>
      rcases operandBits_cons h with ⟨piece, others, hpiece, hothers, rfl⟩
      rcases List.pairwise_cons.1 hapart with ⟨hfirst, hrest⟩
      rw [Word.or_and]
      -- Under the mask of one slot, the pieces of all others vanish.
      cases i with
      | zero =>
          cases hslot
          have hzero : others &&& slot.mask = 0 := by
            apply and_operandBits_eq_zero hothers
            intro other hmem
            rw [UInt32.and_comm]
            exact hfirst other hmem
          rw [hpiece.and_mask, hzero, UInt32.or_zero]
          exact hpiece
      | succ i =>
          have hslot : rest[i]? = some slot := hslot
          have hzero : piece &&& slot.mask = 0 :=
            Word.and_eq_zero hpiece.and_mask (hfirst slot (List.mem_of_getElem? hslot))
          rw [hzero, UInt32.zero_or, ← Nat.add_assoc, Nat.add_right_comm]
          exact ih hothers hrest hslot

/-- Every operand of an encoded instruction is read back from its word by its mask. -/
theorem exists_pieces_of_encode {catalog : Catalog} {word : UInt32}
    (h : encode line symbols catalog = .ok word) :
    ∃ d shape slots, catalog.find line.mnemonic = .ok d ∧
        Shape.ofMnemonic? line.mnemonic = some shape ∧
      shape.slots? d.format = some slots ∧
      ∀ i slot, slots[i]? = some slot → PieceAt line symbols i slot (word &&& slot.mask) := by
  rcases encode_eq_ok h with ⟨d, shape, slots, body, hd, hshape, hslots, hbody, rfl⟩
  refine ⟨d, shape, slots, hd, hshape, hslots, ?_⟩
  intro i slot hslot
  rcases Descriptor.frame_apart hslots (List.mem_of_getElem? hslot) with ⟨hopcode, hfunction⟩
  have hpiece := pieceAt_of_operandBits hbody (Shape.masks_of_slots hslots).1 hslot
  rw [Word.or_and, Word.or_and, hopcode, hfunction, UInt32.zero_or, UInt32.or_zero,
    ← Nat.zero_add i]
  exact hpiece

end Instruction

end Dlx
