import Dlx.Isa.Builtin
import Dlx.Proofs.Loading
import Dlx.Proofs.Pieces

/-!
# Fields of an encoded instruction

No piece of an instruction word reaches into the field of another, so `Word.decode` gives every
operand back. What the fields of a word are to hold is said shape by shape, in terms of the operands
of the line in the order in which they are written:

* `Instruction.FieldsI`, `FieldsJ`, `FieldsR`: the bits below the opcode, one table per format
* `Instruction.Holds`: the same for a whole word, by the format of its descriptor
* `Instruction.encode_agrees_with_decode`: every encoded word holds what its operands say

The tables do not mention slots; that the slots of a shape implement them is what is proved.
-/

namespace Dlx

/-! ## Families of shapes -/

namespace Shape

/-- The file of the registers of a shape with three registers. -/
def tripleFile? : Shape → Option RegisterFile
  | .gprGprGpr => some .general
  | .fprFprFpr => some .float
  | .dprDprDpr => some .double
  | _ => none

/-- The file of the registers that a comparison reads. -/
def compareFile? : Shape → Option RegisterFile
  | .fprCompare => some .float
  | .dprCompare => some .double
  | _ => none

/-- The file of the register that a load fills. -/
def loadFile? : Shape → Option RegisterFile
  | .gprMemory => some .general
  | .fprMemory => some .float
  | .dprMemory => some .double
  | _ => none

/-- The file of the register that a store reads. -/
def storeFile? : Shape → Option RegisterFile
  | .memoryGpr => some .general
  | .memoryFpr => some .float
  | .memoryDpr => some .double
  | _ => none

end Shape

namespace Instruction

/-! ## The tables -/

section Tables

variable (line : Line) (symbols : SymbolTable)

/-- What an instruction of format J holds below its opcode. -/
inductive FieldsJ : Shape → (low : Nat) → Prop where
  | nullary : FieldsJ .nullary 0
  | immediate {value : Int} (h : ImmediateAt line symbols 0 value) :
      FieldsJ .immediate (value % 2 ^ 26).toNat
  | jump {distance : UInt32} (h : DisplacementAt line symbols 0 distance) :
      FieldsJ .label26 (distance.toNat % 2 ^ 26)

/-- What an instruction of format I holds below its opcode: two registers and a lower half. The
register moves have the function code `function` in the lower half and drop their target. -/
inductive FieldsI (function : Nat) : Shape → (rs1 rs2 low : Nat) → Prop where
  | nullary : FieldsI function .nullary 0 0 0
  | immediate {value : Int} (h : ImmediateAt line symbols 0 value) :
      FieldsI function .immediate 0 0 (value % 2 ^ 16).toNat
  | register {r : Register} (h : RegisterAt line .general 0 r) :
      FieldsI function .gpr r.val 0 0
  | condition {r : Register} {distance : UInt32} (hr : RegisterAt line .general 0 r)
      (hd : DisplacementAt line symbols 1 distance) :
      FieldsI function .gprLabel r.val 0 (distance.toNat % 2 ^ 16)
  | branch {distance : UInt32} (h : DisplacementAt line symbols 0 distance) :
      FieldsI function .label16 0 0 (distance.toNat % 2 ^ 16)
  | high {r : Register} {value : Int} (hr : RegisterAt line .general 0 r)
      (hv : ImmediateAt line symbols 1 value) :
      FieldsI function .gprUint r.val 0 (value % 2 ^ 16).toNat
  | arithmetic {shape : Shape} {target source : Register} {value : Int}
      (hshape : shape = .gprGprInt ∨ shape = .gprGprUint) (ht : RegisterAt line .general 0 target)
      (hs : RegisterAt line .general 1 source) (hv : ImmediateAt line symbols 2 value) :
      FieldsI function shape source.val target.val (value % 2 ^ 16).toNat
  | load {shape : Shape} {file : RegisterFile} {target : Register} {operand : MemoryOperand}
      (hshape : shape.loadFile? = some file) (ht : RegisterAt line file 0 target)
      (hm : MemoryAt line symbols 1 operand) :
      FieldsI function shape operand.base.val target.val (operand.offset.toNat % 2 ^ 16)
  | store {shape : Shape} {file : RegisterFile} {source : Register} {operand : MemoryOperand}
      (hshape : shape.storeFile? = some file) (hm : MemoryAt line symbols 0 operand)
      (hs : RegisterAt line file 1 source) :
      FieldsI function shape operand.base.val source.val (operand.offset.toNat % 2 ^ 16)
  | move {shape : Shape} {targetFile sourceFile : RegisterFile} {target source : Register}
      (hshape : shape.moveFiles? = some (targetFile, sourceFile))
      (ht : RegisterAt line targetFile 0 target) (hs : RegisterAt line sourceFile 1 source) :
      FieldsI function shape source.val 0 function

/-- What an instruction of format R holds between its opcode and its function code: three
registers. -/
inductive FieldsR : Shape → (rs1 rs2 rd : Nat) → Prop where
  | nullary : FieldsR .nullary 0 0 0
  | triple {shape : Shape} {file : RegisterFile} {target first second : Register}
      (hshape : shape.tripleFile? = some file) (ht : RegisterAt line file 0 target)
      (hf : RegisterAt line file 1 first) (hs : RegisterAt line file 2 second) :
      FieldsR shape first.val second.val target.val
  | compare {shape : Shape} {file : RegisterFile} {first second : Register}
      (hshape : shape.compareFile? = some file) (hf : RegisterAt line file 0 first)
      (hs : RegisterAt line file 1 second) :
      FieldsR shape first.val second.val 0
  | move {shape : Shape} {targetFile sourceFile : RegisterFile} {target source : Register}
      (hshape : shape.moveFiles? = some (targetFile, sourceFile))
      (ht : RegisterAt line targetFile 0 target) (hs : RegisterAt line sourceFile 1 source) :
      FieldsR shape source.val 0 target.val

end Tables

/-- What a word of an instruction holds below its opcode, by the format of its descriptor. In format
R the five bits above the function code are not used. -/
def Holds (line : Line) (symbols : SymbolTable) (d : Descriptor) (shape : Shape) (word : UInt32) :
    Prop :=
  match d.format with
  | .j => FieldsJ line symbols shape (word.toNat % 2 ^ 26)
  | .i =>
    FieldsI line symbols d.functionNumber shape (Word.decode word).rs1.toNat
      (Word.decode word).rs2.toNat (word.toNat % 2 ^ 16)
  | .r =>
    FieldsR line shape (Word.decode word).rs1.toNat (Word.decode word).rs2.toNat
        (Word.decode word).rd.toNat ∧
      (Word.decode word).function.toNat = d.functionNumber ∧ word.toNat / 2 ^ 6 % 2 ^ 5 = 0
  | .other _ => shape = .nullary ∧ word.toNat % 2 ^ 26 = 0

/-! ## The slots of a shape implement the tables -/

section Slots

open Word

variable {line : Line} {symbols : SymbolTable} {shape : Shape} {slots : List Slot} {body : UInt32}

theorem fieldsJ_of_slots (hslots : shape.slotsJ? = some slots)
    (hbody : operandBits line symbols 0 slots = .ok body) :
    FieldsJ line symbols shape (slice body 0 26) := by
  cases shape with
  | nullary =>
      cases hslots
      cases operandBits_nil hbody
      exact .nullary
  | immediate =>
      cases hslots
      rcases operandBits_one hbody with ⟨value, hvalue, rfl⟩
      rw [ImmediateField.slice_imm26, Operand.toNat_wordOfInt_mod value (by decide)]
      exact .immediate hvalue
  | label26 =>
      cases hslots
      rcases operandBits_one hbody with ⟨distance, hdistance, rfl⟩
      rw [ImmediateField.slice_imm26]
      exact .jump hdistance
  | _ => simp [Shape.slotsJ?] at hslots

theorem fieldsR_triple {file : RegisterFile} (hshape : shape.tripleFile? = some file)
    (hbody : operandBits line symbols 0
      [.register file .rd, .register file .rs1, .register file .rs2] = .ok body) :
    FieldsR line shape (slice body 21 5) (slice body 16 5) (slice body 11 5) ∧
      slice body 6 5 = 0 ∧ slice body 0 6 = 0 := by
  rcases operandBits_three hbody with ⟨_, _, _, ⟨t, ht, rfl⟩, ⟨f, hf, rfl⟩, ⟨s, hs, rfl⟩, rfl⟩
  simpa [slice_or] using FieldsR.triple hshape ht hf hs

theorem fieldsR_compare {file : RegisterFile} (hshape : shape.compareFile? = some file)
    (hbody : operandBits line symbols 0 [.register file .rs1, .register file .rs2] = .ok body) :
    FieldsR line shape (slice body 21 5) (slice body 16 5) (slice body 11 5) ∧
      slice body 6 5 = 0 ∧ slice body 0 6 = 0 := by
  rcases operandBits_two hbody with ⟨_, _, ⟨f, hf, rfl⟩, ⟨s, hs, rfl⟩, rfl⟩
  simpa [slice_or] using FieldsR.compare hshape hf hs

theorem fieldsR_move {target source : RegisterFile}
    (hshape : shape.moveFiles? = some (target, source))
    (hbody : operandBits line symbols 0 [.register target .rd, .register source .rs1] = .ok body) :
    FieldsR line shape (slice body 21 5) (slice body 16 5) (slice body 11 5) ∧
      slice body 6 5 = 0 ∧ slice body 0 6 = 0 := by
  rcases operandBits_two hbody with ⟨_, _, ⟨t, ht, rfl⟩, ⟨s, hs, rfl⟩, rfl⟩
  simpa [slice_or] using FieldsR.move hshape ht hs

theorem fieldsR_of_slots (hslots : shape.slotsR? = some slots)
    (hbody : operandBits line symbols 0 slots = .ok body) :
    FieldsR line shape (slice body 21 5) (slice body 16 5) (slice body 11 5) ∧
      slice body 6 5 = 0 ∧ slice body 0 6 = 0 := by
  cases shape with
  | nullary =>
      cases hslots
      cases operandBits_nil hbody
      simpa [slice_zero] using FieldsR.nullary
  | gprGprGpr | fprFprFpr | dprDprDpr =>
      cases hslots
      exact fieldsR_triple rfl hbody
  | fprCompare | dprCompare =>
      cases hslots
      exact fieldsR_compare rfl hbody
  | gprFpr | fprGpr | fprFpr | dprDpr | dprFpr | fprDpr =>
      cases hslots
      exact fieldsR_move rfl hbody
  | _ => simp [Shape.slotsR?, Shape.moveFiles?] at hslots

variable {function : Nat}

theorem fieldsI_arithmetic (hshape : shape = .gprGprInt ∨ shape = .gprGprUint)
    (hbody : operandBits line symbols 0
      [.register .general .rs2, .register .general .rs1, .immediate .imm16] = .ok body) :
    FieldsI line symbols function shape (slice body 21 5) (slice body 16 5) (slice body 0 16) := by
  rcases operandBits_three hbody with ⟨_, _, _, ⟨t, ht, rfl⟩, ⟨s, hs, rfl⟩, ⟨v, hv, rfl⟩, rfl⟩
  simpa [slice_or, Operand.lower_wordOfInt] using FieldsI.arithmetic hshape ht hs hv

theorem fieldsI_load {file : RegisterFile} (hshape : shape.loadFile? = some file)
    (hbody : operandBits line symbols 0 [.register file .rs2, .memory] = .ok body) :
    FieldsI line symbols function shape (slice body 21 5) (slice body 16 5) (slice body 0 16) := by
  rcases operandBits_two hbody with ⟨_, _, ⟨t, ht, rfl⟩, ⟨m, hm, rfl⟩, rfl⟩
  simpa [slice_or, MemoryOperand.bits] using FieldsI.load hshape ht hm

theorem fieldsI_store {file : RegisterFile} (hshape : shape.storeFile? = some file)
    (hbody : operandBits line symbols 0 [.memory, .register file .rs2] = .ok body) :
    FieldsI line symbols function shape (slice body 21 5) (slice body 16 5) (slice body 0 16) := by
  rcases operandBits_two hbody with ⟨_, _, ⟨m, hm, rfl⟩, ⟨s, hs, rfl⟩, rfl⟩
  simpa [slice_or, MemoryOperand.bits] using FieldsI.store hshape hm hs

theorem fieldsI_move {target source : RegisterFile}
    (hshape : shape.moveFiles? = some (target, source))
    (hbody : operandBits line symbols 0 [.register target .unused, .register source .rs1] =
      .ok body) :
    FieldsI line symbols function shape (slice body 21 5) (slice body 16 5)
      (slice body 0 16 ||| function) := by
  rcases operandBits_two hbody with ⟨_, _, ⟨t, ht, rfl⟩, ⟨s, hs, rfl⟩, rfl⟩
  simpa [slice_or, slice_zero] using FieldsI.move hshape ht hs

/-- The lower half that the operands leave is joined by the function code of a register move. -/
theorem fieldsI_of_slots (hslots : shape.slotsI? = some slots)
    (hbody : operandBits line symbols 0 slots = .ok body) :
    FieldsI line symbols function shape (slice body 21 5) (slice body 16 5)
      (slice body 0 16 ||| if shape.hasFunction .i then function else 0) := by
  -- A shape at a time: the slots are known, so the bits are a union of known pieces, and the slices
  -- that `FieldsI` asks for fall out by simplification.
  cases shape with
  | nullary =>
      cases hslots
      cases operandBits_nil hbody
      simpa [slice_zero, Shape.hasFunction, Shape.moveFiles?] using FieldsI.nullary
  | immediate =>
      cases hslots
      rcases operandBits_one hbody with ⟨v, hv, rfl⟩
      simpa [Shape.hasFunction, Shape.moveFiles?, Operand.lower_wordOfInt]
        using FieldsI.immediate hv
  | gpr =>
      cases hslots
      rcases operandBits_one hbody with ⟨r, hr, rfl⟩
      simpa [Shape.hasFunction, Shape.moveFiles?] using FieldsI.register hr
  | gprLabel =>
      cases hslots
      rcases operandBits_two hbody with ⟨_, _, ⟨r, hr, rfl⟩, ⟨d, hd, rfl⟩, rfl⟩
      simpa [slice_or, Shape.hasFunction, Shape.moveFiles?] using FieldsI.condition hr hd
  | label16 =>
      cases hslots
      rcases operandBits_one hbody with ⟨d, hd, rfl⟩
      simpa [Shape.hasFunction, Shape.moveFiles?] using FieldsI.branch hd
  | gprUint =>
      cases hslots
      rcases operandBits_two hbody with ⟨_, _, ⟨r, hr, rfl⟩, ⟨v, hv, rfl⟩, rfl⟩
      simpa [slice_or, Shape.hasFunction, Shape.moveFiles?, Operand.lower_wordOfInt]
        using FieldsI.high hr hv
  | gprGprInt =>
      cases hslots
      simpa [Shape.hasFunction, Shape.moveFiles?] using fieldsI_arithmetic (.inl rfl) hbody
  | gprGprUint =>
      cases hslots
      simpa [Shape.hasFunction, Shape.moveFiles?] using fieldsI_arithmetic (.inr rfl) hbody
  | gprMemory | fprMemory | dprMemory =>
      cases hslots
      simpa [Shape.hasFunction, Shape.moveFiles?] using fieldsI_load rfl hbody
  | memoryGpr | memoryFpr | memoryDpr =>
      cases hslots
      simpa [Shape.hasFunction, Shape.moveFiles?] using fieldsI_store rfl hbody
  | gprFpr | fprGpr | fprFpr | dprDpr | dprFpr | fprDpr =>
      cases hslots
      exact fieldsI_move rfl hbody
  | _ => simp [Shape.slotsI?, Shape.moveFiles?] at hslots

end Slots

end Instruction

/-! ## Catalogs that are built by loading -/

namespace Catalog

/-- The catalogs that loading can build, from none or from the built-in opcodes. A load that stops
early counts as well: what stood in front of the malformed record is kept. -/
inductive Built : Catalog → Prop where
  | empty : Built empty
  | builtin : Built builtin
  | load {c : Catalog} (h : Built c) (format : Format) (text : Bytes) :
      Built (c.load format text).catalog

/-- Only format R has function codes. -/
def Functional (c : Catalog) : Prop :=
  ∀ d ∈ c.entries, d.format ≠ .r → d.function = Descriptor.noFunction

theorem Functional.insert {c : Catalog} (hc : c.Functional) {d : Descriptor}
    (hd : d.format ≠ .r → d.function = Descriptor.noFunction) : (c.insert d).Functional := by
  intro e he
  rcases List.mem_append.1 he with hold | hnew
  · exact hc e (List.mem_filter.1 hold).1
  · cases List.mem_singleton.1 hnew
    exact hd

theorem Functional.insertAll {c : Catalog} (hc : c.Functional) {definitions : List Descriptor}
    (h : ∀ d ∈ definitions, d.format ≠ .r → d.function = Descriptor.noFunction) :
    (definitions.foldl Catalog.insert c).Functional := by
  induction definitions generalizing c with
  | nil => exact hc
  | cons d rest ih =>
      refine ih (hc.insert (h d List.mem_cons_self)) ?_
      intro e he
      exact h e (List.mem_cons_of_mem d he)

theorem functional_builtin : builtin.Functional := by
  intro d hd hformat
  simp only [builtin, List.mem_append, List.mem_map] at hd
  rcases hd with ((⟨_, -, rfl⟩ | ⟨_, -, rfl⟩) | ⟨_, -, rfl⟩) | ⟨_, -, rfl⟩
  · rfl
  · rfl
  · exact absurd rfl hformat
  · exact absurd rfl hformat

/-- Loading gives function codes to format R alone. -/
theorem Built.functional {c : Catalog} (h : Built c) : c.Functional := by
  induction h with
  | empty =>
      intro d hd
      cases hd
  | builtin => exact functional_builtin
  | load h format text ih =>
      refine ih.insertAll ?_
      intro d hd hformat
      rcases takesText_iff.2 (rfl : (accepted format text).1 = _) with ⟨raws, -, htakes⟩
      rcases htakes.exists_defines hd with ⟨line, -, hline⟩
      exact hline.wellFormed.function hformat

end Catalog

namespace Instruction

theorem holds_of_slots {line : Line} {symbols : SymbolTable} {d : Descriptor} {shape : Shape}
    {slots : List Slot} {body word : UInt32} (hslots : shape.slots? d.format = some slots)
    (hbody : operandBits line symbols 0 slots = .ok body)
    (hjoined : Joined d (if shape.hasFunction d.format then d.functionNumber else 0) body word) :
    Holds line symbols d shape word := by
  unfold Holds
  -- The opcode lies from bit 26 on and the function code below bit 6, so that in every format the
  -- fields between them are those of the operands.
  have hrs1 := hjoined.middle (show 6 ≤ 21 by decide) (show 21 + 5 ≤ 26 by decide)
  have hrs2 := hjoined.middle (show 6 ≤ 16 by decide) (show 16 + 5 ≤ 26 by decide)
  cases hformat : d.format with
  | j =>
      rw [hformat] at hslots hjoined
      have hlow := hjoined.lower (show 6 ≤ 26 by decide) (by decide)
      have hfields := fieldsJ_of_slots hslots hbody
      simp only [Word.toNat_mod_eq_slice, hlow]
      simpa [Shape.hasFunction] using hfields
  | i =>
      rw [hformat] at hslots hjoined
      have hlow := hjoined.lower (show 6 ≤ 16 by decide) (by decide)
      simp only [Word.decode_rs1, Word.decode_rs2, Word.toNat_mod_eq_slice, hrs1, hrs2, hlow]
      exact fieldsI_of_slots hslots hbody
  | r =>
      rw [hformat] at hslots hjoined
      have hrd := hjoined.middle (show 6 ≤ 11 by decide) (show 11 + 5 ≤ 26 by decide)
      have hgap := hjoined.middle (show 6 ≤ 6 by decide) (show 6 + 5 ≤ 26 by decide)
      have hlow := hjoined.lower (show 6 ≤ 6 by decide) (by decide)
      rcases fieldsR_of_slots hslots hbody with ⟨hfields, hunused, hempty⟩
      simp only [Word.decode_rs1, Word.decode_rs2, Word.decode_rd, Word.decode_function, hrs1, hrs2,
        hrd]
      refine ⟨hfields, ?_, ?_⟩
      · rw [hlow, hempty]
        simp [Shape.hasFunction]
      · exact hgap.trans hunused
  | other code =>
      rw [hformat] at hslots hjoined
      have hlow := hjoined.lower (show 6 ≤ 26 by decide) (by decide)
      -- A format that is none of the three has room for no operand.
      by_cases hnullary : shape = .nullary
      · rw [Shape.slots?, if_pos hnullary] at hslots
        cases hslots
        cases operandBits_nil hbody
        refine ⟨hnullary, ?_⟩
        rw [Word.toNat_mod_eq_slice, hlow]
        simp [Word.slice_zero, Shape.hasFunction]
      · rw [Shape.slots?, if_neg hnullary] at hslots
        cases hslots

/-- The lower half of a register move of format I is its function code. -/
theorem FieldsI.low_of_move {line : Line} {symbols : SymbolTable} {function rs1 rs2 low : Nat}
    {shape : Shape} (h : FieldsI line symbols function shape rs1 rs2 low)
    (hmove : shape.moveFiles?.isSome) :
    low = function := by
  cases h with
  | move hshape ht hs => rfl
  | arithmetic hshape ht hs hv =>
      rcases hshape with rfl | rfl
      · cases hmove
      · cases hmove
  | load hshape ht hm => cases shape <;> cases hmove <;> cases hshape
  | store hshape hm hs => cases shape <;> cases hmove <;> cases hshape
  | _ => cases hmove

/-- The word of an instruction holds its opcode number and its operands. -/
theorem exists_holds_of_encode {line : Line} {symbols : SymbolTable} {catalog : Catalog}
    {word : UInt32} (h : encode line symbols catalog = .ok word) :
    ∃ d shape, catalog.find line.mnemonic = .ok d ∧ Shape.ofMnemonic? line.mnemonic = some shape ∧
      Word.slice word 26 6 = d.encoding.toNat % 64 ∧ Holds line symbols d shape word := by
  rcases encode_eq_ok h with ⟨d, shape, slots, body, hd, hshape, hslots, hbody, hword⟩
  have hjoined := joined_of_operandBits d (shape.hasFunction d.format) hbody
  rw [← hword] at hjoined
  exact ⟨d, shape, hd, hshape, hjoined.opcode, holds_of_slots hslots hbody hjoined⟩

/-- A word that is encoded shows the opcode number of its descriptor, and below it what the operands
of the line say, shape by shape. In a catalog that was loaded, the register moves of format I have
an empty lower half. -/
theorem encode_agrees_with_decode {line : Line} {symbols : SymbolTable} {catalog : Catalog}
    {word : UInt32} (h : encode line symbols catalog = .ok word) :
    ∃ d shape, catalog.find line.mnemonic = .ok d ∧ Shape.ofMnemonic? line.mnemonic = some shape ∧
      (Word.decode word).opcode.toNat = d.encoding.toNat % 64 ∧ Holds line symbols d shape word ∧
      (catalog.Built → d.format = .i → shape.moveFiles?.isSome → word.toNat % 2 ^ 16 = 0) := by
  rcases exists_holds_of_encode h with ⟨d, shape, hd, hshape, hopcode, hholds⟩
  refine ⟨d, shape, hd, hshape, ?_, hholds, ?_⟩
  · rw [Word.decode_opcode]
    exact hopcode
  · intro hbuilt hformat hmove
    have hcode : d.function = Descriptor.noFunction :=
      hbuilt.functional d (Catalog.mem_of_find hd) (by rw [hformat]; decide)
    have hnumber : d.functionNumber = 0 := by
      rw [Descriptor.functionNumber, hcode]
      rfl
    rw [Holds, hformat] at hholds
    rw [hholds.low_of_move hmove, hnumber]

/-- A store with a negative offset. -/
def sampleStore : Line :=
  { kind := .instruction
    tokens := [utf8 "sw", utf8 "-8(r2)", utf8 "r1"]
    mnemonic := utf8 "sw"
    operands := [utf8 "-8(r2)", utf8 "r1"] }

theorem sampleStore_agrees_with_decode :
    encode sampleStore .empty .builtin = .ok 0xAC41FFF8 ∧
      ∃ d shape, Catalog.builtin.find (utf8 "sw") = .ok d ∧
        Shape.ofMnemonic? (utf8 "sw") = some shape ∧
        (Word.decode 0xAC41FFF8).opcode.toNat = d.encoding.toNat % 64 ∧
        Holds sampleStore .empty d shape 0xAC41FFF8 ∧
        (Catalog.builtin.Built → d.format = .i → shape.moveFiles?.isSome →
          UInt32.toNat 0xAC41FFF8 % 2 ^ 16 = 0) := by
  have hencode : encode sampleStore .empty .builtin = .ok 0xAC41FFF8 := by decide +kernel
  exact ⟨hencode, encode_agrees_with_decode hencode⟩

end Instruction

end Dlx
