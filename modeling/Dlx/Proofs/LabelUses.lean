import Dlx.Proofs.Grammar
import Dlx.Proofs.Numerals
import Dlx.Proofs.Shift

/-!
# Labels in words

An operand that is the name of a label puts the address of the label into the word of its line, or
the distance to it. When every address is moved by `d`, the distance stays as it is, and the address
grows by `d` in its field.

* `ImmediateField.add`: a word with something added to one of its fields
* `OperandKind.takesAddress`: which operands put an address into a word
* `Instruction.encode_shift`: what becomes of an instruction word
* `Operand.word_shift`: what becomes of the operand of a word directive
-/

namespace Dlx

variable {d : UInt32}

/-! ## Adding to a field -/

namespace ImmediateField

/-- A word with `d` added to the value of a field, modulo the width of the field. -/
def add (field : ImmediateField) (word d : UInt32) : UInt32 :=
  word &&& ~~~field.mask ||| (word + d) &&& field.mask

theorem bits_eq_and (field : ImmediateField) (value : UInt32) :
    field.bits value = value &&& field.mask := by
  cases field with
  | imm16 | imm26 => rfl

theorem toNat_and_mask (field : ImmediateField) (value : UInt32) :
    (value &&& field.mask).toNat = value.toNat % 2 ^ field.width := by
  rw [← bits_eq_and, (field.carries value).toNat_eq, Nat.pow_zero, Nat.mul_one]

/-- The field of a sum depends on the fields of its terms alone. -/
theorem add_and_mask (field : ImmediateField) {a b : UInt32}
    (h : a &&& field.mask = b &&& field.mask) :
    (a + d) &&& field.mask = (b + d) &&& field.mask := by
  have hwrap : 2 ^ field.width ∣ 2 ^ 32 :=
    Nat.pow_dvd_pow 2 (Nat.le_trans field.width_le (by decide))
  have hfields : a.toNat % 2 ^ field.width = b.toNat % 2 ^ field.width := by
    rw [← toNat_and_mask, ← toNat_and_mask, h]
  rw [← UInt32.toNat_inj, toNat_and_mask, toNat_and_mask, UInt32.toNat_add, UInt32.toNat_add,
    Nat.mod_mod_of_dvd _ hwrap, Nat.mod_mod_of_dvd _ hwrap, Nat.add_mod, hfields, ← Nat.add_mod]

theorem and_not_mask (field : ImmediateField) {word : UInt32} (h : word &&& field.mask = 0) :
    word &&& ~~~field.mask = word := by
  symm
  calc
    word = (field.mask ||| ~~~field.mask) &&& word := by rw [UInt32.or_not_self, UInt32.neg_one_and]
    _ = field.mask &&& word ||| ~~~field.mask &&& word := Word.or_and _ _ word
    _ = word &&& ~~~field.mask := by
      rw [UInt32.and_comm, h, UInt32.zero_or, UInt32.and_comm]

theorem add_or (field : ImmediateField) {other : UInt32} (h : other &&& field.mask = 0)
    (word : UInt32) :
    field.add (word ||| other) d = field.add word d ||| other := by
  have hfield : (word ||| other) &&& field.mask = word &&& field.mask := by
    rw [Word.or_and, h, UInt32.or_zero]
  rw [add, add, Word.or_and, field.and_not_mask h, field.add_and_mask hfield, UInt32.or_assoc,
    UInt32.or_comm other, ← UInt32.or_assoc]

theorem add_bits (field : ImmediateField) (value : UInt32) :
    field.add (field.bits value) d = field.bits (value + d) := by
  have hfield : field.bits value &&& field.mask = value &&& field.mask := by
    rw [field.and_mask, bits_eq_and]
  have habove : field.bits value &&& ~~~field.mask = 0 := by
    rw [bits_eq_and, UInt32.and_assoc, UInt32.and_not_self, UInt32.and_zero]
  rw [add, habove, field.add_and_mask hfield, UInt32.zero_or, bits_eq_and]

/-- A word whose field holds an address when `takesAddress` says so, after every address is moved by
`d`. -/
def relocate (field : ImmediateField) (d : UInt32) (takesAddress : Bool) (word : UInt32) : UInt32 :=
  if takesAddress then field.add word d else word

theorem relocate_bits (field : ImmediateField) (takes : Bool) (value : UInt32) :
    field.relocate d takes (field.bits value) =
      field.bits (if takes then value + d else value) := by
  cases takes with
  | false => rfl
  | true => exact field.add_bits value

theorem relocate_or_right (field : ImmediateField) {takes : Bool} {other : UInt32}
    (h : takes = true → other &&& field.mask = 0) (word : UInt32) :
    field.relocate d takes (word ||| other) = field.relocate d takes word ||| other := by
  cases takes with
  | false => rfl
  | true => exact field.add_or (h rfl) word

theorem relocate_or_left (field : ImmediateField) {takes : Bool} {other : UInt32}
    (h : takes = true → other &&& field.mask = 0) (word : UInt32) :
    field.relocate d takes (other ||| word) = other ||| field.relocate d takes word := by
  rw [UInt32.or_comm, field.relocate_or_right h, UInt32.or_comm]

end ImmediateField

/-! ## Operands that take an address -/

/-- Whether an operand of a kind puts the address of a label into its word. A displacement that
names a label puts the distance to it there. -/
def OperandKind.takesAddress : OperandKind → Bytes → Bool
  | .register _, _ => false
  | .immediate, token => (Operand.literal? token).isNone
  | .displacement, _ => false
  | .memory, token =>
    match Operand.splitMemory? token with
    | some parts => !parts.1.isEmpty && (Operand.literal? parts.1).isNone
    | none => (Operand.literal? token).isNone

namespace Operand

theorem immediate_shift (symbols : SymbolTable) (token : Bytes) :
    Corresponds Eq
      (fun value value' =>
        wordOfInt value' = if (literal? token).isNone then wordOfInt value + d else wordOfInt value)
      (immediate symbols token) (immediate (symbols.shift d) token) := by
  unfold immediate
  rw [symbols.resolve?_shift]
  cases literal? token with
  | some value => exact .ok rfl
  | none =>
      cases symbols.resolve? token with
      | none => exact .error rfl
      | some address =>
          refine .ok ?_
          rw [wordOfInt_toNat, wordOfInt_toNat]
          rfl

/-- A distance between two addresses does not change when both are moved. -/
theorem displacement_shift (symbols : SymbolTable) (address : UInt32) (token : Bytes) :
    displacement (symbols.shift d) (address + d) token = displacement symbols address token := by
  unfold displacement
  rw [symbols.resolve?_shift]
  cases literal? token with
  | some value => rfl
  | none =>
      cases symbols.resolve? token with
      | none => rfl
      | some target =>
          -- Both ends are moved, wherever the sums wrap.
          have hdistance : target + d - (address + d + 4) = target - (address + 4) := by grind
          exact congrArg Except.ok hdistance

theorem memory_shift (symbols : SymbolTable) (token : Bytes) :
    Corresponds Eq
      (fun operand operand' => operand'.base = operand.base ∧
        operand'.offset =
          if OperandKind.memory.takesAddress token then operand.offset + d else operand.offset)
      (memory symbols token) (memory (symbols.shift d) token) := by
  cases hsplit : splitMemory? token with
  | none =>
      simp only [memory, OperandKind.takesAddress, hsplit]
      apply (immediate_shift symbols token).bind
      intro value value' _ hvalue
      exact .ok ⟨rfl, hvalue⟩
  | some parts =>
      rcases parts with ⟨offset, base⟩
      -- The base is a register and does not look at the labels; an offset that is left out is zero
      -- wherever these are.
      have hbase := Corresponds.refl (fun _ => rfl) (register .general base)
      cases offset with
      | nil =>
          simp only [memory, OperandKind.takesAddress, hsplit]
          apply hbase.bind
          intro r r' _ hr
          exact .ok ⟨hr.symm, rfl⟩
      | cons b rest =>
          simp only [memory, OperandKind.takesAddress, hsplit]
          apply (immediate_shift symbols (b :: rest)).bind
          intro value value' _ hvalue
          apply hbase.bind
          intro r r' _ hr
          exact .ok ⟨hr.symm, hvalue⟩

end Operand

/-! ## Slots -/

namespace Slot

/-- The field in which the operand of a slot can hold an address. -/
def addressField? : Slot → Option ImmediateField
  | .immediate field => some field
  | .memory => some .imm16
  | .register _ _ | .displacement _ => none

theorem exists_addressField {slot : Slot} {token : Bytes}
    (h : slot.kind.takesAddress token = true) :
    ∃ field, slot.addressField? = some field := by
  cases slot with
  | register file field => cases h
  | displacement field => cases h
  | immediate field => exact ⟨field, rfl⟩
  | memory => exact ⟨.imm16, rfl⟩

theorem addressField_and_mask {slot : Slot} {field : ImmediateField}
    (h : slot.addressField? = some field) :
    field.mask &&& slot.mask = field.mask := by
  cases slot with
  | register file field => cases h
  | displacement field => cases h
  | immediate field =>
      cases h
      exact UInt32.and_self
  | memory =>
      cases h
      decide

theorem takesAddress_of_apart {slot : Slot} {field : ImmediateField}
    (hfield : ∀ f ∈ slot.addressField?, f = field) (hapart : slot.mask &&& field.mask = 0)
    (token : Bytes) : slot.kind.takesAddress token = false := by
  by_contra htakes
  rcases exists_addressField (Bool.eq_true_of_not_eq_false htakes) with ⟨f, hf⟩
  cases hfield f hf
  have hwithin := addressField_and_mask hf
  rw [UInt32.and_comm, hapart] at hwithin
  cases field with
  | imm16 | imm26 => cases hwithin

theorem bits_shift {slot : Slot} {field : ImmediateField}
    (hfield : ∀ f ∈ slot.addressField?, f = field) (symbols : SymbolTable) (address : UInt32)
    (token : Bytes) :
    Corresponds Eq
      (fun piece piece' => piece' = field.relocate d (slot.kind.takesAddress token) piece)
      (slot.bits symbols address token) (slot.bits (symbols.shift d) (address + d) token) := by
  cases slot with
  | register file place =>
      apply Corresponds.refl
      intro piece
      rfl
  | displacement place =>
      rw [bits, bits, Operand.displacement_shift]
      apply Corresponds.refl
      intro piece
      rfl
  | immediate place =>
      cases hfield place rfl
      apply (Operand.immediate_shift symbols token).map
      intro value value' hvalue
      show field.bits (Operand.wordOfInt value') =
        field.relocate d _ (field.bits (Operand.wordOfInt value))
      rw [hvalue, field.relocate_bits]
      rfl
  | memory =>
      cases hfield .imm16 rfl
      apply (Operand.memory_shift symbols token).map
      rintro operand operand' ⟨hbase, hoffset⟩
      -- The base register stands beside the offset and is not touched.
      have hapart : RegisterField.rs1.bits operand.base &&& ImmediateField.imm16.mask = 0 :=
        Word.and_eq_zero (RegisterField.rs1.and_mask operand.base) (by decide)
      rw [MemoryOperand.bits, MemoryOperand.bits, hbase, hoffset,
        ImmediateField.relocate_or_left _ fun _ => hapart, ImmediateField.relocate_bits]
      rfl

end Slot

/-! ## Instructions -/

/-- The field of a format that an address goes to. -/
def Format.addressField : Format → ImmediateField
  | .j => .imm26
  | _ => .imm16

theorem Shape.addressField_of_slots {shape : Shape} {format : Format} {slots : List Slot}
    (h : shape.slots? format = some slots) :
    ∀ slot ∈ slots, ∀ field ∈ slot.addressField?, field = format.addressField := by
  cases format with
  | other code =>
      rcases eq_of_slots_other h with ⟨rfl, rfl⟩
      simp
  | i | j | r => cases shape <;> cases h <;> decide

/-- Whether one of the operands that are written for the given kinds puts an address into the
word. -/
def OperandKind.anyTakesAddress (kinds : List OperandKind) (tokens : List Bytes) : Bool :=
  (List.zipWith takesAddress kinds tokens).any id

theorem OperandKind.anyTakesAddress_cons (kind : OperandKind) (kinds : List OperandKind)
    (token : Bytes) (tokens : List Bytes) :
    anyTakesAddress (kind :: kinds) (token :: tokens) =
      (kind.takesAddress token || anyTakesAddress kinds tokens) := rfl

namespace Instruction

/-- Whether an instruction holds the address of a label. -/
def takesAddress (line : Line) : Bool :=
  match Shape.ofMnemonic? line.mnemonic with
  | some shape => OperandKind.anyTakesAddress shape.grammar line.operands
  | none => false

/-- Whether an instruction names the place that it goes to. -/
def isBranch (line : Line) : Bool :=
  match Shape.ofMnemonic? line.mnemonic with
  | some shape => shape.grammar.contains .displacement
  | none => false

/-- A branch holds a distance and no address beside it. -/
theorem takesAddress_of_isBranch {line : Line} (h : isBranch line = true) :
    takesAddress line = false := by
  unfold isBranch at h
  unfold takesAddress
  cases hshape : Shape.ofMnemonic? line.mnemonic with
  | none => rfl
  | some shape =>
      rw [hshape] at h
      cases shape with
      | gprLabel | label16 | label26 =>
          rcases line.operands with - | ⟨first, - | ⟨second, rest⟩⟩
          · rfl
          · rfl
          · rfl
      | _ => cases h

theorem exists_addressField {slots : List Slot} {tokens : List Bytes}
    (h : OperandKind.anyTakesAddress (slots.map Slot.kind) tokens = true) :
    ∃ slot ∈ slots, ∃ field, slot.addressField? = some field := by
  induction slots generalizing tokens with
  | nil => cases h
  | cons slot rest ih =>
      cases tokens with
      | nil => cases h
      | cons token tokens =>
          rcases Bool.or_eq_true_iff.1 h with hhere | hrest
          · exact ⟨slot, List.mem_cons_self, Slot.exists_addressField hhere⟩
          · rcases ih hrest with ⟨other, hmem, hfield⟩
            exact ⟨other, List.mem_cons_of_mem slot hmem, hfield⟩

variable {line : Line} {symbols : SymbolTable}

theorem operandBits_shift {slots : List Slot} {field : ImmediateField}
    (hapart : slots.Pairwise (fun a b => a.mask &&& b.mask = 0))
    (hfield : ∀ slot ∈ slots, ∀ f ∈ slot.addressField?, f = field) (place : Nat) :
    Corresponds Eq
      (fun bits bits' => bits' = field.relocate d
        (OperandKind.anyTakesAddress (slots.map Slot.kind) (line.operands.drop place)) bits)
      (operandBits line symbols place slots)
      (operandBits (line.shift d) (symbols.shift d) place slots) := by
  induction slots generalizing place with
  | nil => exact .ok rfl
  | cons slot rest ih =>
      rcases List.pairwise_cons.1 hapart with ⟨hslot, hrest⟩
      have hoperand := Corresponds.refl (fun _ => rfl) (operandAt line place)
      apply hoperand.bind
      intro token token' htoken htoken'
      cases htoken'
      apply (Slot.bits_shift (hfield slot List.mem_cons_self) symbols line.address token).bind
      intro piece piece' hpiece hpiece'
      apply (ih hrest (fun other hmem => hfield other (List.mem_cons_of_mem slot hmem))
        (place + 1)).bind
      intro others others' hothers hothers'
      have hdrop : line.operands.drop place = token :: line.operands.drop (place + 1) := by
        rcases List.getElem?_eq_some_iff.1 (operandAt_eq_ok.1 htoken) with ⟨hlt, hget⟩
        rw [List.drop_eq_getElem_cons hlt, hget]
      refine .ok ?_
      rw [hpiece', hothers', hdrop, List.map_cons, OperandKind.anyTakesAddress_cons]
      -- At most one operand takes an address, since all of them would put it into the same field.
      cases hlater : OperandKind.anyTakesAddress (rest.map Slot.kind)
        (line.operands.drop (place + 1)) with
      | true =>
          rcases exists_addressField hlater with ⟨other, hmem, f, hf⟩
          cases hfield other (List.mem_cons_of_mem slot hmem) f hf
          have hmask : slot.mask &&& field.mask = 0 :=
            Word.and_part_eq_zero (hslot other hmem) (Slot.addressField_and_mask hf)
          have hhere := Slot.takesAddress_of_apart (hfield slot List.mem_cons_self) hmask token
          have hpieceAt := pieceAt_of_bits (operandAt_eq_ok.1 htoken) hpiece
          rw [hhere, Bool.false_or,
            field.relocate_or_left fun _ => Word.and_eq_zero hpieceAt.and_mask hmask]
          rfl
      | false =>
          rw [Bool.or_false, field.relocate_or_right]
          · rfl
          · intro htakes
            rcases Slot.exists_addressField htakes with ⟨f, hf⟩
            cases hfield slot List.mem_cons_self f hf
            apply and_operandBits_eq_zero hothers
            intro other hmem
            rw [UInt32.and_comm]
            exact Word.and_eq_zero (Slot.addressField_and_mask hf) (hslot other hmem)

/-- The word of an instruction that is moved with all labels: an address that it holds is moved in
its field, and all else stays. -/
theorem encode_shift (catalog : Catalog) :
    Corresponds Eq
      (fun word word' => ∃ descriptor, catalog.find line.mnemonic = .ok descriptor ∧
        word' = descriptor.format.addressField.relocate d (takesAddress line) word)
      (encode line symbols catalog) (encode (line.shift d) (symbols.shift d) catalog) := by
  have hmnemonic : (line.shift d).mnemonic = line.mnemonic := rfl
  unfold encode
  rw [hmnemonic]
  apply (Corresponds.refl (fun _ => rfl) (catalog.find line.mnemonic)).bind
  intro descriptor descriptor' hdescriptor hsame
  cases hsame
  cases hshape : Shape.ofMnemonic? line.mnemonic with
  | none => exact .error rfl
  | some shape =>
      cases hslots : shape.slots? descriptor.format with
      | none =>
          simp only [hslots]
          exact .error rfl
      | some slots =>
          simp only [hslots]
          have hfield := Shape.addressField_of_slots hslots
          apply (operandBits_shift (Shape.masks_of_slots hslots).1 hfield 0).bind
          intro body body' _ hbody
          refine .ok ⟨descriptor, hdescriptor, ?_⟩
          have htakes : takesAddress line =
              OperandKind.anyTakesAddress (slots.map Slot.kind) (line.operands.drop 0) := by
            simp only [takesAddress, hshape, List.drop_zero, Shape.map_kind_slots hslots]
          -- The address field lies under the mask of an operand, and there the rest of the word is
          -- empty.
          have hframe : OperandKind.anyTakesAddress (slots.map Slot.kind) (line.operands.drop 0) =
              true →
              descriptor.opcodeBits &&& descriptor.format.addressField.mask = 0 ∧
                (if shape.hasFunction descriptor.format then descriptor.functionBits else 0) &&&
                  descriptor.format.addressField.mask = 0 := by
            intro haddress
            rcases exists_addressField haddress with ⟨slot, hmem, field, hf⟩
            cases hfield slot hmem field hf
            have hwithin := Slot.addressField_and_mask hf
            rcases Descriptor.frame_apart hslots hmem with ⟨hopcode, hfunction⟩
            exact ⟨Word.and_part_eq_zero hopcode hwithin, Word.and_part_eq_zero hfunction hwithin⟩
          rw [hbody, htakes, ImmediateField.relocate_or_right _ fun h => (hframe h).2,
            ImmediateField.relocate_or_left _ fun h => (hframe h).1]

end Instruction

/-! ## Word directives -/

namespace Operand

/-- Whether the operand of a word directive is read as a label. -/
def wordTakesAddress (token : Bytes) : Bool :=
  (hexDigits? (Bytes.dropStart (utf8 "-") token)).isNone &&
    (Numeral.integer 10 64 token).toOption.isNone

theorem word_shift (symbols : SymbolTable) (token : Bytes) :
    Corresponds Eq
      (fun value value' => value' = if wordTakesAddress token then value + d else value)
      (word symbols token) (word (symbols.shift d) token) := by
  cases hhex : hexDigits? (Bytes.dropStart (utf8 "-") token) with
  | some hex =>
      simp only [word, wordTakesAddress, hhex]
      apply Corresponds.refl
      intro value
      rfl
  | none =>
      cases hinteger : Numeral.integer 10 64 token with
      | ok value =>
          simp only [word, wordTakesAddress, hhex, hinteger]
          exact .ok rfl
      | error flaw =>
          simp only [word, wordTakesAddress, hhex, hinteger, symbols.resolve?_shift]
          cases symbols.resolve? token with
          | none => exact .error rfl
          | some address => exact .ok rfl

end Operand

end Dlx
