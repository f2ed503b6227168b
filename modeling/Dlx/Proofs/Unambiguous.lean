import Dlx.Proofs.Encoding
import Dlx.Proofs.Grammar
import Mathlib.Data.List.Nodup

/-!
# Words that name their instruction

In the built-in instruction set a word can be read in one way only. Opcode number and function code
name the mnemonic, and under the masks of its slots the word shows the operands: every register as
it was written, every number as far as its field reaches.

* `Catalog.nodup_keys_builtin`: no two built-in instructions share opcode number and function code
* `Instruction.SameAt`: two lines have the same operand at a place, up to the width of a field
* `Instruction.equal_words_same_instruction`: equal words come from the same mnemonic and the same
  operands

A register move of format I would drop its target. The built-in set has none, which
`Instruction.tells_builtin` checks together with the widths of the fields.
-/

namespace Dlx

/-! ## Mnemonics -/

/-- What a word shows of a descriptor: its opcode number, and its function code where the format has
one. -/
def Descriptor.key (d : Descriptor) : Nat × Nat :=
  (d.encoding.toNat % 64, if d.format = .r then d.functionNumber else 0)

/-- Opcode number and function code of a word. Only the opcode numbers zero and one have a function
code. -/
def Word.key (word : UInt32) : Nat × Nat :=
  (slice word 26 6, if slice word 26 6 < 2 then slice word 0 6 else 0)

namespace Catalog

theorem nodup_keys_builtin : (builtin.entries.map Descriptor.key).Nodup := by
  decide +kernel

theorem format_eq_r_iff_builtin :
    ∀ d ∈ builtin.entries, d.format = .r ↔ d.encoding.toNat % 64 < 2 := by
  decide +kernel

end Catalog

namespace Instruction

variable {line line' : Line} {symbols symbols' : SymbolTable} {word : UInt32}

/-- The word of a built-in instruction shows what its descriptor holds. -/
theorem Holds.key_eq {d : Descriptor} {shape : Shape} (h : Holds line symbols d shape word)
    (hopcode : Word.slice word 26 6 = d.encoding.toNat % 64) (hd : d ∈ Catalog.builtin.entries) :
    d.key = Word.key word := by
  have hformat := Catalog.format_eq_r_iff_builtin d hd
  by_cases hr : d.format = .r
  · have hfunction : d.functionNumber = Word.slice word 0 6 := by
      rw [Holds, hr] at h
      rw [← h.2.1, Word.decode_function]
    rw [Descriptor.key, Word.key, hopcode, if_pos hr, if_pos (hformat.1 hr), hfunction]
  · rw [Descriptor.key, Word.key, hopcode, if_neg hr, if_neg (mt hformat.2 hr)]

/-! ## Operands -/

/-- Two lines have the same operand at a place: the same register, or numbers that agree in their
last `width` bits. A memory operand has both. -/
def SameAt (line : Line) (symbols : SymbolTable) (line' : Line) (symbols' : SymbolTable)
    (width place : Nat) :
    OperandKind → Prop
  | .register file => ∃ r, RegisterAt line file place r ∧ RegisterAt line' file place r
  | .immediate =>
    ∃ value value', ImmediateAt line symbols place value ∧ ImmediateAt line' symbols' place value' ∧
      value % 2 ^ width = value' % 2 ^ width
  | .displacement =>
    ∃ value value', DisplacementAt line symbols place value ∧
        DisplacementAt line' symbols' place value' ∧
      value.toNat % 2 ^ width = value'.toNat % 2 ^ width
  | .memory =>
    ∃ base offset offset', MemoryAt line symbols place ⟨offset, base⟩ ∧
      MemoryAt line' symbols' place ⟨offset', base⟩ ∧
        offset.toNat % 2 ^ width = offset'.toNat % 2 ^ width

end Instruction

/-- Whether the bits of a slot tell its operand, a number up to `width` bits. -/
def Slot.tells (width : Nat) : Slot → Bool
  | .register _ field => field ≠ .unused
  | .immediate field | .displacement field => field.width = width
  | .memory => width = 16

theorem RegisterField.bits_inj {field : RegisterField} (hfield : field ≠ .unused) {r r' : Register}
    (h : field.bits r = field.bits r') : r = r' := by
  obtain ⟨place, hplace⟩ : ∃ place, field.place? = some place := by
    cases field with
    | rs1 | rs2 | rd => exact ⟨_, rfl⟩
    | unused => exact absurd rfl hfield
  have hr := (carries hplace r).slice_at (Nat.le_refl 5)
  have hr' := (carries hplace r').slice_at (Nat.le_refl 5)
  apply Fin.ext
  rw [← hr, ← hr', h]

theorem ImmediateField.mod_eq_of_bits_eq {field : ImmediateField} {value value' : UInt32}
    (h : field.bits value = field.bits value') :
    value.toNat % 2 ^ field.width = value'.toNat % 2 ^ field.width := by
  have hvalue := (field.carries value).slice_at (Nat.le_refl field.width)
  have hvalue' := (field.carries value').slice_at (Nat.le_refl field.width)
  rw [← hvalue, ← hvalue', h]

theorem Operand.emod_eq_of_wordOfInt {value value' : Int} {bits : Nat} (hbits : bits ≤ 32)
    (h : (wordOfInt value).toNat % 2 ^ bits = (wordOfInt value').toNat % 2 ^ bits) :
    value % 2 ^ bits = value' % 2 ^ bits := by
  have hpos : (2 ^ bits : Int) ≠ 0 := Int.ne_of_gt (Int.pow_pos (show (0 : Int) < 2 by decide))
  have hvalue : 0 ≤ value % 2 ^ bits := Int.emod_nonneg value hpos
  have hvalue' : 0 ≤ value' % 2 ^ bits := Int.emod_nonneg value' hpos
  rw [toNat_wordOfInt_mod value hbits, toNat_wordOfInt_mod value' hbits] at h
  rw [← Int.toNat_of_nonneg hvalue, h, Int.toNat_of_nonneg hvalue']

theorem MemoryOperand.eq_of_bits_eq {operand operand' : MemoryOperand}
    (h : operand.bits = operand'.bits) :
    operand.base = operand'.base ∧ operand.offset.toNat % 2 ^ 16 =
      operand'.offset.toNat % 2 ^ 16 := by
  have hslices : ∀ m : MemoryOperand, Word.slice m.bits 21 5 = m.base.val ∧
      Word.slice m.bits 0 16 = m.offset.toNat % 2 ^ 16 := by
    intro m
    simp [bits, Word.slice_or]
  constructor
  · apply Fin.ext
    rw [← (hslices operand).1, ← (hslices operand').1, h]
  · rw [← (hslices operand).2, ← (hslices operand').2, h]

namespace Instruction

variable {line line' : Line} {symbols symbols' : SymbolTable} {word : UInt32}

/-- Operands that fill a slot with the same bits are the same, as far as the slot tells. -/
theorem sameAt_of_pieceAt {slot : Slot} {width place : Nat} {piece : UInt32}
    (htells : slot.tells width = true) (h : PieceAt line symbols place slot piece)
    (h' : PieceAt line' symbols' place slot piece) :
    SameAt line symbols line' symbols' width place slot.kind := by
  cases slot with
  | register file field =>
      rcases h with ⟨r, hr, rfl⟩
      rcases h' with ⟨r', hr', hbits⟩
      have hused : field ≠ .unused := by simpa [Slot.tells] using htells
      cases RegisterField.bits_inj hused hbits
      exact ⟨r, hr, hr'⟩
  | immediate field =>
      rcases h with ⟨value, hvalue, rfl⟩
      rcases h' with ⟨value', hvalue', hbits⟩
      have hwidth : field.width = width := by simpa [Slot.tells] using htells
      have hfits : field.width ≤ 32 := Nat.le_trans field.width_le (by decide)
      have hmod := ImmediateField.mod_eq_of_bits_eq hbits
      rw [← hwidth]
      exact ⟨value, value', hvalue, hvalue', Operand.emod_eq_of_wordOfInt hfits hmod⟩
  | displacement field =>
      rcases h with ⟨value, hvalue, rfl⟩
      rcases h' with ⟨value', hvalue', hbits⟩
      have hwidth : field.width = width := by simpa [Slot.tells] using htells
      rw [← hwidth]
      exact ⟨value, value', hvalue, hvalue', ImmediateField.mod_eq_of_bits_eq hbits⟩
  | memory =>
      rcases h with ⟨⟨offset, base⟩, hoperand, rfl⟩
      rcases h' with ⟨⟨offset', base'⟩, hoperand', hbits⟩
      have hwidth : width = 16 := by simpa [Slot.tells] using htells
      rcases MemoryOperand.eq_of_bits_eq hbits with ⟨rfl, hoffset⟩
      rw [hwidth]
      exact ⟨base, offset, offset', hoperand, hoperand', hoffset⟩

/-- How many bits of a number the word of a built-in instruction shows. -/
def numberWidth (mnemonic : Bytes) : Nat :=
  if mnemonic = utf8 "j" ∨ mnemonic = utf8 "jal" then 26 else 16

theorem tells_builtin :
    ∀ d ∈ Catalog.builtin.entries, ∀ shape ∈ Shape.ofMnemonic? d.opcode,
      ∀ slots ∈ shape.slots? d.format, ∀ slot ∈ slots,
      slot.tells (numberWidth d.opcode) = true := by
  decide +kernel

/-- Two lines of one built-in instruction with the same word have the same operands. -/
theorem sameAt_of_encode {mnemonic : Bytes} {shape : Shape} (hmnemonic : line.mnemonic = mnemonic)
    (hmnemonic' : line'.mnemonic = mnemonic) (hshape : Shape.ofMnemonic? mnemonic = some shape)
    (h : encode line symbols .builtin = .ok word) (h' : encode line' symbols' .builtin = .ok word)
    {place : Nat} {kind : OperandKind} (hkind : shape.grammar[place]? = some kind) :
    SameAt line symbols line' symbols' (numberWidth mnemonic) place kind := by
  rcases exists_pieces_of_encode h with ⟨d, shape₁, slots, hd, hshape₁, hslots, hpieces⟩
  rcases exists_pieces_of_encode h' with ⟨d', shape₂, slots', hd', hshape₂, hslots', hpieces'⟩
  rw [hmnemonic] at hd hshape₁
  rw [hmnemonic'] at hd' hshape₂
  cases hd.symm.trans hd'
  cases hshape.symm.trans hshape₁
  cases hshape.symm.trans hshape₂
  cases hslots.symm.trans hslots'
  -- The grammar does not know the slots: a place of the one is a place of the other.
  rw [← Shape.map_kind_slots hslots, List.getElem?_map] at hkind
  rcases Option.map_eq_some_iff.1 hkind with ⟨slot, hslot, rfl⟩
  have htells : slot.tells (numberWidth mnemonic) = true := by
    have hopcode := Catalog.opcode_of_find hd
    have hall := tells_builtin d (Catalog.mem_of_find hd)
    rw [hopcode] at hall
    exact hall shape hshape slots hslots slot (List.mem_of_getElem? hslot)
  exact sameAt_of_pieceAt htells (hpieces place slot hslot) (hpieces' place slot hslot)

/-- The built-in encodings are unambiguous: lines with equal words have the same mnemonic, the same
registers in all places, and the same numbers modulo the width of their field. -/
theorem equal_words_same_instruction (h : encode line symbols .builtin = .ok word)
    (h' : encode line' symbols' .builtin = .ok word) :
    line.mnemonic = line'.mnemonic ∧
      ∃ shape, Shape.ofMnemonic? line.mnemonic = some shape ∧
        ∀ place kind, shape.grammar[place]? = some kind →
          SameAt line symbols line' symbols' (numberWidth line.mnemonic) place kind := by
  rcases exists_holds_of_encode h with ⟨d, shape, hd, hshape, hopcode, hholds⟩
  rcases exists_holds_of_encode h' with ⟨d', shape', hd', -, hopcode', hholds'⟩
  have hmem := Catalog.mem_of_find hd
  have hmem' := Catalog.mem_of_find hd'
  have hkeys : d.key = d'.key :=
    (hholds.key_eq hopcode hmem).trans (hholds'.key_eq hopcode' hmem').symm
  have hsame : d = d' := List.inj_on_of_nodup_map Catalog.nodup_keys_builtin hmem hmem' hkeys
  have hmnemonic : line.mnemonic = line'.mnemonic := by
    rw [← Catalog.opcode_of_find hd, ← Catalog.opcode_of_find hd', hsame]
  refine ⟨hmnemonic, shape, hshape, ?_⟩
  intro place kind hkind
  exact sameAt_of_encode rfl hmnemonic.symm hshape h h' hkind

/-- A load written with a label, and one written with numbers alone. -/
def sampleLoads : Line × Line :=
  ({ kind := .instruction
     tokens := [utf8 "lw", utf8 "r1", utf8 "x(r2)"]
     mnemonic := utf8 "lw"
     operands := [utf8 "r1", utf8 "x(r2)"] },
   { kind := .instruction
     tokens := [utf8 "lw", utf8 "1", utf8 "-8(R02)"]
     mnemonic := utf8 "lw"
     operands := [utf8 "1", utf8 "-8(R02)"]
     address := 64 })

/-- The label stands for an address whose last sixteen bits are those of the offset. -/
def sampleLoadSymbols : SymbolTable :=
  ⟨[(utf8 "x:", 0x1FFF8)]⟩

theorem sampleLoads_same_instruction :
    encode sampleLoads.1 sampleLoadSymbols .builtin = .ok 0x8C41FFF8 ∧
      encode sampleLoads.2 .empty .builtin = .ok 0x8C41FFF8 ∧
      sampleLoads.1.mnemonic = sampleLoads.2.mnemonic ∧
      ∃ shape, Shape.ofMnemonic? sampleLoads.1.mnemonic = some shape ∧
        ∀ place kind, shape.grammar[place]? = some kind →
          SameAt sampleLoads.1 sampleLoadSymbols sampleLoads.2 .empty
            (numberWidth sampleLoads.1.mnemonic) place kind := by
  have hfirst : encode sampleLoads.1 sampleLoadSymbols .builtin = .ok 0x8C41FFF8 := by
    decide +kernel
  have hsecond : encode sampleLoads.2 .empty .builtin = .ok 0x8C41FFF8 := by decide +kernel
  exact ⟨hfirst, hsecond, equal_words_same_instruction hfirst hsecond⟩

end Instruction

end Dlx
