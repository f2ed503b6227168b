import Dlx.Assembly.Instruction
import Dlx.Proofs.Outcome
import Dlx.Proofs.Word

/-!
# The pieces of an instruction word

An instruction word is a union of pieces: the opcode, the bits of each operand, the function code.
This module says what the pieces are and where they stand.

* `Word.Carries`: a piece is a value at a place; every field beside it is empty
* `Instruction.PieceAt`: the piece that the operand at a place of a line contributes
* `Instruction.encode_eq_ok`: an encoded word is the union of the pieces of a known instruction

With these no later proof unfolds the encoder.
-/

namespace Dlx

/-! ## The pieces of a word -/

/-- A word whose set bits all belong to a value of `width` bits at bit `place`. -/
structure Word.Carries (word : UInt32) (value place width : Nat) : Prop where
  toNat_eq : word.toNat = value * 2 ^ place
  lt : value < 2 ^ width

namespace Word.Carries

variable {word : UInt32} {value place width : Nat}

theorem slice_at (h : Word.Carries word value place width) {len : Nat} (hlen : width ≤ len) :
    Word.slice word place len = value := by
  have hlt : value < 2 ^ len := Nat.lt_of_lt_of_le h.lt (Nat.pow_le_pow_right (by decide) hlen)
  rw [Word.slice, h.toNat_eq, Nat.mul_div_cancel _ (Nat.two_pow_pos place), Nat.mod_eq_of_lt hlt]

/-- A field below the piece is empty. -/
theorem slice_below (h : Word.Carries word value place width) {start len : Nat}
    (hbelow : start + len ≤ place) : Word.slice word start len = 0 := by
  obtain ⟨gap, rfl⟩ : ∃ gap, place = start + (len + gap) := ⟨place - (start + len), by omega⟩
  rw [Word.slice, h.toNat_eq, Nat.pow_add, ← Nat.mul_assoc, Nat.mul_right_comm,
    Nat.mul_div_cancel _ (Nat.two_pow_pos start), Nat.pow_add, ← Nat.mul_assoc, Nat.mul_right_comm,
    Nat.mul_mod_left]

/-- A field above the piece is empty. -/
theorem slice_above (h : Word.Carries word value place width) {start len : Nat}
    (habove : place + width ≤ start) : Word.slice word start len = 0 := by
  have hlt : word.toNat < 2 ^ start := by
    calc word.toNat = value * 2 ^ place := h.toNat_eq
      _ < 2 ^ width * 2 ^ place := Nat.mul_lt_mul_of_pos_right h.lt (Nat.two_pow_pos place)
      _ = 2 ^ (place + width) := by rw [← Nat.pow_add, Nat.add_comm]
      _ ≤ 2 ^ start := Nat.pow_le_pow_right (by decide) habove
  rw [Word.slice, Nat.div_eq_of_lt hlt, Nat.zero_mod]

end Word.Carries

/-- The lowest bit of a register field. -/
def RegisterField.place? : RegisterField → Option Nat
  | .rs1 => some 21
  | .rs2 => some 16
  | .rd => some 11
  | .unused => none

theorem RegisterField.carries {field : RegisterField} {place : Nat} (h : field.place? = some place)
    (r : Register) : Word.Carries (field.bits r) r.val place 5 := by
  refine ⟨?_, r.isLt⟩
  revert r
  cases field with
  | rs1 | rs2 | rd =>
      cases h
      decide
  | unused => cases h

/-- The number of bits of an immediate field. -/
def ImmediateField.width : ImmediateField → Nat
  | .imm16 => 16
  | .imm26 => 26

theorem ImmediateField.width_le (field : ImmediateField) : field.width ≤ 26 := by
  cases field with
  | imm16 | imm26 => decide

theorem ImmediateField.carries (field : ImmediateField) (value : UInt32) :
    Word.Carries (field.bits value) (value.toNat % 2 ^ field.width) 0 field.width := by
  refine ⟨?_, Nat.mod_lt _ (Nat.two_pow_pos field.width)⟩
  rw [Nat.pow_zero, Nat.mul_one]
  cases field with
  | imm16 => exact Word.toNat_and_mask value 0xFFFF 16 (by decide)
  | imm26 => exact Word.toNat_and_mask value 0x3FFFFFF 26 (by decide)

namespace Descriptor

/-- The function code of a descriptor as a number of six bits; a negative code stands for none. -/
def functionNumber (d : Descriptor) : Nat :=
  if d.function < 0 then 0 else d.function.toNat % 64

theorem carries_opcode (d : Descriptor) :
    Word.Carries d.opcodeBits (d.encoding.toNat % 64) 26 6 := by
  have hmask : (d.encoding &&& 0x3F).toNat = d.encoding.toNat % 2 ^ 6 :=
    Word.toNat_and_mask d.encoding 0x3F 6 (by decide)
  have hlt : d.encoding.toNat % 2 ^ 6 < 2 ^ 6 := Nat.mod_lt _ (by decide)
  have hfits : d.encoding.toNat % 2 ^ 6 * 2 ^ 26 < 2 ^ 32 := by omega
  refine ⟨?_, hlt⟩
  rw [opcodeBits, UInt32.toNat_shiftLeft, hmask, Nat.shiftLeft_eq]
  exact Nat.mod_eq_of_lt hfits

theorem carries_function (d : Descriptor) : Word.Carries d.functionBits d.functionNumber 0 6 := by
  unfold functionBits functionNumber
  by_cases hneg : d.function < 0
  · simp only [if_pos hneg]
    exact ⟨rfl, by decide⟩
  · have hlt : d.function.toNat % 64 < 64 := Nat.mod_lt _ (by decide)
    simp only [if_neg hneg]
    refine ⟨?_, hlt⟩
    simp only [Nat.toUInt32_eq, UInt32.toNat_ofNat', Nat.pow_zero, Nat.mul_one]
    omega

end Descriptor

/-- The low bits of a whole number as a word. -/
theorem Operand.toNat_wordOfInt_mod (value : Int) {bits : Nat} (hbits : bits ≤ 32) :
    (Operand.wordOfInt value).toNat % 2 ^ bits = (value % 2 ^ bits).toNat := by
  have hpow : ∀ n : Nat, ((2 ^ n : Nat) : Int) = 2 ^ n := fun n => by push_cast; rfl
  have hdvd : ((2 ^ bits : Nat) : Int) ∣ (2 ^ 32 : Nat) :=
    Int.natCast_dvd_natCast.2 (Nat.pow_dvd_pow 2 hbits)
  have hword : ((Operand.wordOfInt value).toNat : Int) = value % (2 ^ 32 : Nat) := by
    simp only [Operand.wordOfInt, Nat.toUInt32_eq, UInt32.toNat_ofNat']
    omega
  have hmod : (((Operand.wordOfInt value).toNat % 2 ^ bits : Nat) : Int) =
      value % (2 ^ bits : Nat) := by
    rw [Int.natCast_emod, hword, Int.emod_emod_of_dvd _ hdvd]
  rw [← hpow, ← hmod, Int.toNat_natCast]

theorem Operand.lower_wordOfInt (value : Int) :
    (Operand.wordOfInt value).toNat % 65536 = (value % 65536).toNat :=
  Operand.toNat_wordOfInt_mod value (show 16 ≤ 32 by decide)

namespace Instruction

/-! ## Operands by their place -/

section Operands

variable (line : Line) (symbols : SymbolTable)

/-- The operand at a place is a register of a file. -/
def RegisterAt (file : RegisterFile) (place : Nat) (r : Register) : Prop :=
  ∃ token, line.operands[place]? = some token ∧ Operand.register file token = .ok r

/-- The operand at a place is an immediate. -/
def ImmediateAt (place : Nat) (value : Int) : Prop :=
  ∃ token, line.operands[place]? = some token ∧ Operand.immediate symbols token = .ok value

/-- The operand at a place is a displacement from the line. -/
def DisplacementAt (place : Nat) (value : UInt32) : Prop :=
  ∃ token, line.operands[place]? = some token ∧
    Operand.displacement symbols line.address token = .ok value

/-- The operand at a place is a memory operand. -/
def MemoryAt (place : Nat) (operand : MemoryOperand) : Prop :=
  ∃ token, line.operands[place]? = some token ∧ Operand.memory symbols token = .ok operand

/-- The bits that the operand at a place fills when it stands in a slot. -/
def PieceAt (place : Nat) : Slot → UInt32 → Prop
  | .register file field, piece => ∃ r, RegisterAt line file place r ∧ piece = field.bits r
  | .immediate field, piece =>
    ∃ value, ImmediateAt line symbols place value ∧ piece = field.bits (Operand.wordOfInt value)
  | .displacement field, piece =>
    ∃ value, DisplacementAt line symbols place value ∧ piece = field.bits value
  | .memory, piece => ∃ operand, MemoryAt line symbols place operand ∧ piece = operand.bits

end Operands

section Inversion

variable {line : Line} {symbols : SymbolTable} {place : Nat} {bits : UInt32}

theorem operandAt_eq_ok {token : Bytes} :
    operandAt line place = .ok token ↔ line.operands[place]? = some token := by
  unfold operandAt
  cases line.operands[place]? with
  | none => simp
  | some found => simp

theorem pieceAt_of_bits {slot : Slot} {token : Bytes} {piece : UInt32}
    (htoken : line.operands[place]? = some token)
    (hbits : slot.bits symbols line.address token = .ok piece) :
    PieceAt line symbols place slot piece := by
  cases slot with
  | register file field =>
      rcases map_eq_ok.1 hbits with ⟨r, hr, rfl⟩
      exact ⟨r, ⟨token, htoken, hr⟩, rfl⟩
  | immediate field =>
      rcases map_eq_ok.1 hbits with ⟨value, hvalue, rfl⟩
      exact ⟨value, ⟨token, htoken, hvalue⟩, rfl⟩
  | displacement field =>
      rcases map_eq_ok.1 hbits with ⟨value, hvalue, rfl⟩
      exact ⟨value, ⟨token, htoken, hvalue⟩, rfl⟩
  | memory =>
      rcases map_eq_ok.1 hbits with ⟨operand, hoperand, rfl⟩
      exact ⟨operand, ⟨token, htoken, hoperand⟩, rfl⟩

theorem operandBits_nil (h : operandBits line symbols place [] = .ok bits) : bits = 0 := by
  cases h
  rfl

theorem operandBits_cons {slot : Slot} {slots : List Slot}
    (h : operandBits line symbols place (slot :: slots) = .ok bits) :
    ∃ piece others, PieceAt line symbols place slot piece ∧
      operandBits line symbols (place + 1) slots = .ok others ∧ bits = piece ||| others := by
  rcases bind_eq_ok.1 h with ⟨token, htoken, h⟩
  rcases bind_eq_ok.1 h with ⟨piece, hpiece, h⟩
  rcases bind_eq_ok.1 h with ⟨others, hothers, h⟩
  exact ⟨piece, others, pieceAt_of_bits (operandAt_eq_ok.1 htoken) hpiece, hothers,
    (pure_eq_ok.1 h).symm⟩

/-- Instructions of one operand. -/
theorem operandBits_one {a : Slot} (h : operandBits line symbols 0 [a] = .ok bits) :
    PieceAt line symbols 0 a bits := by
  rcases operandBits_cons h with ⟨p, rest, hp, hrest, rfl⟩
  cases operandBits_nil hrest
  simpa using hp

/-- Instructions of two operands. -/
theorem operandBits_two {a b : Slot} (h : operandBits line symbols 0 [a, b] = .ok bits) :
    ∃ p q, PieceAt line symbols 0 a p ∧ PieceAt line symbols 1 b q ∧ bits = p ||| q := by
  rcases operandBits_cons h with ⟨p, rest, hp, hrest, rfl⟩
  rcases operandBits_cons hrest with ⟨q, none, hq, hnone, rfl⟩
  cases operandBits_nil hnone
  exact ⟨p, q, hp, hq, by simp⟩

/-- Instructions of three operands. -/
theorem operandBits_three {a b c : Slot} (h : operandBits line symbols 0 [a, b, c] = .ok bits) :
    ∃ p q r, PieceAt line symbols 0 a p ∧ PieceAt line symbols 1 b q ∧
      PieceAt line symbols 2 c r ∧ bits = p ||| q ||| r := by
  rcases operandBits_cons h with ⟨p, rest, hp, hrest, rfl⟩
  rcases operandBits_cons hrest with ⟨q, last, hq, hlast, rfl⟩
  rcases operandBits_cons hlast with ⟨r, none, hr, hnone, rfl⟩
  cases operandBits_nil hnone
  exact ⟨p, q, r, hp, hq, hr, by simp [UInt32.or_assoc]⟩

/-- An encoded word is the union of opcode, operands and function code of a known instruction whose
shape fits its format. -/
theorem encode_eq_ok {catalog : Catalog} {word : UInt32}
    (h : encode line symbols catalog = .ok word) :
    ∃ d shape slots body, catalog.find line.mnemonic = .ok d ∧
      Shape.ofMnemonic? line.mnemonic = some shape ∧ shape.slots? d.format = some slots ∧
      operandBits line symbols 0 slots = .ok body ∧
      word = d.opcodeBits ||| body |||
        (if shape.hasFunction d.format then d.functionBits else 0) := by
  rcases bind_eq_ok.1 h with ⟨d, hd, h⟩
  cases hshape : Shape.ofMnemonic? line.mnemonic with
  | none =>
      rw [hshape] at h
      cases h
  | some shape =>
      simp only [hshape] at h
      cases hslots : shape.slots? d.format with
      | none =>
          rw [hslots] at h
          cases h
      | some slots =>
          simp only [hslots] at h
          rcases bind_eq_ok.1 h with ⟨body, hbody, hword⟩
          exact ⟨d, shape, slots, body, hd, rfl, hslots, hbody, (pure_eq_ok.1 hword).symm⟩

end Inversion

end Instruction

/-! ## What the formats read -/

section Slices

open Word

@[simp] theorem RegisterField.slices_rs1 (r : Register) :
    slice (RegisterField.rs1.bits r) 21 5 = r.val ∧ slice (RegisterField.rs1.bits r) 16 5 = 0 ∧
      slice (RegisterField.rs1.bits r) 0 16 = 0 ∧ slice (RegisterField.rs1.bits r) 11 5 = 0 ∧
      slice (RegisterField.rs1.bits r) 6 5 = 0 ∧ slice (RegisterField.rs1.bits r) 0 6 = 0 :=
  have h := @carries .rs1 21 rfl r
  ⟨h.slice_at (by decide), h.slice_below (by decide), h.slice_below (by decide),
    h.slice_below (by decide), h.slice_below (by decide), h.slice_below (by decide)⟩

@[simp] theorem RegisterField.slices_rs2 (r : Register) :
    slice (RegisterField.rs2.bits r) 21 5 = 0 ∧ slice (RegisterField.rs2.bits r) 16 5 = r.val ∧
      slice (RegisterField.rs2.bits r) 0 16 = 0 ∧ slice (RegisterField.rs2.bits r) 11 5 = 0 ∧
      slice (RegisterField.rs2.bits r) 6 5 = 0 ∧ slice (RegisterField.rs2.bits r) 0 6 = 0 :=
  have h := @carries .rs2 16 rfl r
  ⟨h.slice_above (by decide), h.slice_at (by decide), h.slice_below (by decide),
    h.slice_below (by decide), h.slice_below (by decide), h.slice_below (by decide)⟩

@[simp] theorem RegisterField.slices_rd (r : Register) :
    slice (RegisterField.rd.bits r) 21 5 = 0 ∧ slice (RegisterField.rd.bits r) 16 5 = 0 ∧
      slice (RegisterField.rd.bits r) 11 5 = r.val ∧ slice (RegisterField.rd.bits r) 6 5 = 0 ∧
      slice (RegisterField.rd.bits r) 0 6 = 0 :=
  have h := @carries .rd 11 rfl r
  ⟨h.slice_above (by decide), h.slice_above (by decide), h.slice_at (by decide),
    h.slice_below (by decide), h.slice_below (by decide)⟩

@[simp] theorem RegisterField.bits_unused (r : Register) : RegisterField.unused.bits r = 0 := rfl

@[simp] theorem ImmediateField.slices_imm16 (value : UInt32) :
    slice (ImmediateField.imm16.bits value) 21 5 = 0 ∧
        slice (ImmediateField.imm16.bits value) 16 5 = 0 ∧
      slice (ImmediateField.imm16.bits value) 0 16 = value.toNat % 2 ^ 16 :=
  have h := carries .imm16 value
  ⟨h.slice_above (by decide), h.slice_above (by decide), h.slice_at (by decide)⟩

@[simp] theorem ImmediateField.slice_imm26 (value : UInt32) :
    slice (ImmediateField.imm26.bits value) 0 26 = value.toNat % 2 ^ 26 :=
  (carries .imm26 value).slice_at (by decide)

end Slices

namespace Instruction

open Word

variable {line : Line} {symbols : SymbolTable}

/-! ## The whole word -/

/-- No operand reaches into the opcode. -/
theorem slice_opcode_of_pieceAt {place : Nat} {slot : Slot} {piece : UInt32}
    (h : PieceAt line symbols place slot piece) : slice piece 26 6 = 0 := by
  cases slot with
  | register file field =>
      rcases h with ⟨r, -, rfl⟩
      cases field with
      | unused => exact slice_zero 26 6
      | rs1 | rs2 | rd => exact (RegisterField.carries rfl r).slice_above (by decide)
  | immediate field | displacement field =>
      rcases h with ⟨value, -, rfl⟩
      refine (field.carries _).slice_above ?_
      rw [Nat.zero_add]
      exact field.width_le
  | memory =>
      rcases h with ⟨operand, -, rfl⟩
      have hbase := @RegisterField.carries .rs1 21 rfl operand.base
      have hoffset := ImmediateField.carries .imm16 operand.offset
      rw [MemoryOperand.bits, slice_or, hbase.slice_above (by decide),
        hoffset.slice_above (by decide), Nat.or_zero]

theorem slice_opcode_of_operandBits {place : Nat} {slots : List Slot} {bits : UInt32}
    (h : operandBits line symbols place slots = .ok bits) : slice bits 26 6 = 0 := by
  induction slots generalizing place bits with
  | nil =>
      cases operandBits_nil h
      exact slice_zero 26 6
  | cons slot slots ih =>
      rcases operandBits_cons h with ⟨piece, others, hpiece, hothers, rfl⟩
      rw [slice_or, slice_opcode_of_pieceAt hpiece, ih hothers, Nat.or_zero]

/-- A word put together from opcode, operands and function code shows the operands between the
two. -/
structure Joined (d : Descriptor) (function : Nat) (body word : UInt32) : Prop where
  opcode : slice word 26 6 = d.encoding.toNat % 64
  middle : ∀ {start len : Nat}, 6 ≤ start → start + len ≤ 26 →
    slice word start len = slice body start len
  lower : ∀ {len : Nat}, 6 ≤ len → len ≤ 26 → slice word 0 len = slice body 0 len ||| function

theorem joined_of_operandBits {slots : List Slot} {body : UInt32} (d : Descriptor)
    (withFunction : Bool) (hbody : operandBits line symbols 0 slots = .ok body) :
    Joined d (if withFunction then d.functionNumber else 0) body
      (d.opcodeBits ||| body ||| (if withFunction then d.functionBits else 0)) := by
  have hopcode := d.carries_opcode
  have htail : Carries (if withFunction then d.functionBits else 0)
      (if withFunction then d.functionNumber else 0) 0 6 := by
    cases withFunction with
    | false => exact ⟨rfl, Nat.two_pow_pos 6⟩
    | true => exact d.carries_function
  constructor
  · rw [slice_or, slice_or, hopcode.slice_at (by decide), slice_opcode_of_operandBits hbody,
      htail.slice_above (by decide), Nat.or_zero, Nat.or_zero]
  · intro start len hstart hend
    rw [slice_or, slice_or, hopcode.slice_below hend, htail.slice_above (by omega), Nat.zero_or,
      Nat.or_zero]
  · intro len hlow hhigh
    rw [slice_or, slice_or, hopcode.slice_below (by omega), htail.slice_at hlow, Nat.zero_or]

end Instruction

end Dlx
