import Dlx.Isa.Builtin
import Dlx.Proofs.Grammar

/-!
# The instructions that are accepted

An instruction has a word exactly when it is known and its operands are written as its shape
demands. Otherwise its fault is that of the mnemonic, or else that of the first operand that is
missing or cannot be read.

* `Shape.allowedIn`: the formats that can hold a shape
* `OperandKind.ReadAll`, `OperandKind.FirstFault`: the operands of a grammar against the tokens of a
  line
* `Instruction.Accepts`, `Instruction.Rejects`: what becomes of an instruction, said without its
  word
* `Instruction.encode_follows_grammar`: an instruction is encoded exactly when it is accepted, it
  fails with the fault it is rejected for, and operands beyond its grammar do not matter
-/

namespace Dlx

/-- Whether a format can hold the operands of a shape. -/
def Shape.allowedIn : Shape → Format → Bool
  | .nullary, _ => true
  | .immediate, format => format = .i || format = .j
  | .label26, format => format = .j
  | .gprFpr, format | .fprGpr, format | .fprFpr, format | .dprDpr, format | .dprFpr, format
  | .fprDpr, format => format = .i || format = .r
  | .gprGprGpr, format | .fprFprFpr, format | .dprDprDpr, format | .fprCompare, format
  | .dprCompare, format => format = .r
  | _, format => format = .i

theorem Shape.isSome_slots? (shape : Shape) (format : Format) :
    (shape.slots? format).isSome = shape.allowedIn format := by
  cases format with
  | i | j | r | other code => cases shape <;> rfl

theorem Shape.exists_slots_of_allowedIn {shape : Shape} {format : Format}
    (h : shape.allowedIn format = true) :
    ∃ slots, shape.slots? format = some slots ∧ slots.map Slot.kind = shape.grammar := by
  rw [← isSome_slots?] at h
  rcases Option.isSome_iff_exists.1 h with ⟨slots, hslots⟩
  exact ⟨slots, hslots, map_kind_slots hslots⟩

theorem Catalog.find_of_some {catalog : Catalog} {opcode : Bytes} {d : Descriptor}
    (h : catalog.find? opcode = some d) :
    catalog.find opcode = .ok d := by
  simp only [find, h]

theorem Catalog.find_of_none {catalog : Catalog} {opcode : Bytes}
    (h : catalog.find? opcode = none) :
    catalog.find opcode = .error ⟨.unknownOpcode, opcode⟩ := by
  simp only [find, h]

/-! ## Operands and their grammar -/

namespace OperandKind

/-- A token can be read as an operand of a kind. -/
inductive Reads (symbols : SymbolTable) (token : Bytes) : OperandKind → Prop
  | register {file : RegisterFile} {r : Register} (h : Operand.register file token = .ok r) :
      Reads symbols token (.register file)
  | immediate {value : Int} (h : Operand.immediate symbols token = .ok value) :
      Reads symbols token .immediate
  | literal {value : Int} (h : Operand.literal? token = some value) :
      Reads symbols token .displacement
  | label {address : UInt32} (h : symbols.resolve? token = some address) :
      Reads symbols token .displacement
  | memory {operand : MemoryOperand} (h : Operand.memory symbols token = .ok operand) :
      Reads symbols token .memory

/-- A token cannot be read as an operand of a kind, and why. -/
inductive Fails (symbols : SymbolTable) (token : Bytes) : OperandKind → Fault → Prop
  | register {file : RegisterFile} {fault : Fault}
      (h : Operand.register file token = .error fault) :
      Fails symbols token (.register file) fault
  | immediate {fault : Fault} (h : Operand.immediate symbols token = .error fault) :
      Fails symbols token .immediate fault
  | displacement (hliteral : Operand.literal? token = none)
      (hlabel : symbols.resolve? token = none) :
      Fails symbols token .displacement ⟨.unresolvedLabel, token⟩
  | memory {fault : Fault} (h : Operand.memory symbols token = .error fault) :
      Fails symbols token .memory fault

/-- Every operand of a grammar is written and can be read. Any tokens may stand behind them. -/
inductive ReadAll (symbols : SymbolTable) : List OperandKind → List Bytes → Prop
  | done (surplus : List Bytes) : ReadAll symbols [] surplus
  | operand {kind : OperandKind} {kinds : List OperandKind} {token : Bytes} {tokens : List Bytes}
      (h : kind.Reads symbols token) (hrest : ReadAll symbols kinds tokens) :
      ReadAll symbols (kind :: kinds) (token :: tokens)

/-- The fault of the first operand, in the order in which they are written, that is missing or
cannot be read. A missing operand shows the text of its line. -/
inductive FirstFault (symbols : SymbolTable) (text : Bytes) :
    List OperandKind → List Bytes → Fault → Prop
  | missing {kind : OperandKind} {kinds : List OperandKind} :
      FirstFault symbols text (kind :: kinds) [] ⟨.malformedOperand, text⟩
  | here {kind : OperandKind} {kinds : List OperandKind} {token : Bytes} {tokens : List Bytes}
      {fault : Fault} (h : kind.Fails symbols token fault) :
      FirstFault symbols text (kind :: kinds) (token :: tokens) fault
  | later {kind : OperandKind} {kinds : List OperandKind} {token : Bytes} {tokens : List Bytes}
      {fault : Fault} (h : kind.Reads symbols token)
      (hrest : FirstFault symbols text kinds tokens fault) :
      FirstFault symbols text (kind :: kinds) (token :: tokens) fault

end OperandKind

theorem Operand.displacement_of_literal {symbols : SymbolTable} {address : UInt32} {token : Bytes}
    {value : Int} (h : literal? token = some value) :
    displacement symbols address token = .ok (wordOfInt value) := by
  simp only [displacement, h]

theorem Operand.displacement_of_label {symbols : SymbolTable} {address target : UInt32}
    {token : Bytes} (h : literal? token = none) (htarget : symbols.resolve? token = some target) :
    displacement symbols address token = .ok (target - (address + 4)) := by
  simp only [displacement, h, htarget]

theorem Operand.displacement_of_none {symbols : SymbolTable} {address : UInt32} {token : Bytes}
    (h : literal? token = none) (htarget : symbols.resolve? token = none) :
    displacement symbols address token = .error ⟨.unresolvedLabel, token⟩ := by
  simp only [displacement, h, htarget]

namespace Slot

variable {slot : Slot} {symbols : SymbolTable} {address : UInt32} {token : Bytes} {fault : Fault}

/-- A token that can be read fills the bits of its slot, wherever the instruction stands. -/
theorem exists_bits_of_reads (h : slot.kind.Reads symbols token) :
    ∃ bits, slot.bits symbols address token = .ok bits := by
  cases slot with
  | register file field =>
      cases h with
      | register h => exact ⟨_, map_eq_ok.2 ⟨_, h, rfl⟩⟩
  | immediate field =>
      cases h with
      | immediate h => exact ⟨_, map_eq_ok.2 ⟨_, h, rfl⟩⟩
  | memory =>
      cases h with
      | memory h => exact ⟨_, map_eq_ok.2 ⟨_, h, rfl⟩⟩
  | displacement field =>
      -- a token that is a literal as well as a label is read as the literal
      cases hliteral : Operand.literal? token with
      | some value => exact ⟨_, map_eq_ok.2 ⟨_, Operand.displacement_of_literal hliteral, rfl⟩⟩
      | none =>
          cases h with
          | literal h => simp [hliteral] at h
          | label h => exact ⟨_, map_eq_ok.2 ⟨_, Operand.displacement_of_label hliteral h, rfl⟩⟩

theorem bits_of_fails (h : slot.kind.Fails symbols token fault) :
    slot.bits symbols address token = .error fault := by
  cases slot with
  | register file field =>
      cases h with
      | register h => exact map_eq_error.2 h
  | immediate field =>
      cases h with
      | immediate h => exact map_eq_error.2 h
  | memory =>
      cases h with
      | memory h => exact map_eq_error.2 h
  | displacement field =>
      cases h with
      | displacement hliteral hlabel =>
          exact map_eq_error.2 (Operand.displacement_of_none hliteral hlabel)

end Slot

namespace OperandKind

variable {symbols : SymbolTable} {token : Bytes}

theorem reads_or_fails (kind : OperandKind) (symbols : SymbolTable) (token : Bytes) :
    kind.Reads symbols token ∨ ∃ fault, kind.Fails symbols token fault := by
  cases kind with
  | register file =>
      cases h : Operand.register file token with
      | ok r => exact .inl (.register h)
      | error fault => exact .inr ⟨fault, .register h⟩
  | immediate =>
      cases h : Operand.immediate symbols token with
      | ok value => exact .inl (.immediate h)
      | error fault => exact .inr ⟨fault, .immediate h⟩
  | memory =>
      cases h : Operand.memory symbols token with
      | ok operand => exact .inl (.memory h)
      | error fault => exact .inr ⟨fault, .memory h⟩
  | displacement =>
      cases hliteral : Operand.literal? token with
      | some value => exact .inl (.literal hliteral)
      | none =>
          cases hlabel : symbols.resolve? token with
          | some address => exact .inl (.label hlabel)
          | none => exact .inr ⟨_, .displacement hliteral hlabel⟩

/-- The operands of a grammar can all be read, or there is a first that cannot. -/
theorem readAll_or_firstFault (symbols : SymbolTable) (text : Bytes) (kinds : List OperandKind)
    (tokens : List Bytes) :
    ReadAll symbols kinds tokens ∨ ∃ fault, FirstFault symbols text kinds tokens fault := by
  induction kinds generalizing tokens with
  | nil => exact .inl (.done tokens)
  | cons kind kinds ih =>
      cases tokens with
      | nil => exact .inr ⟨_, .missing⟩
      | cons token tokens =>
          rcases kind.reads_or_fails symbols token with hreads | ⟨fault, hfails⟩
          · rcases ih tokens with hrest | ⟨fault, hrest⟩
            · exact .inl (.operand hreads hrest)
            · exact .inr ⟨fault, .later hreads hrest⟩
          · exact .inr ⟨fault, .here hfails⟩

end OperandKind

namespace Instruction

variable {line : Line} {symbols : SymbolTable} {place : Nat} {slots : List Slot}

theorem operandAt_of_drop {token : Bytes} {tokens : List Bytes}
    (h : line.operands.drop place = token :: tokens) :
    operandAt line place = .ok token ∧ line.operands.drop (place + 1) = tokens := by
  have hat : line.operands[place]? = some token := by
    rw [← List.head?_drop, h, List.head?_cons]
  refine ⟨operandAt_eq_ok.2 hat, ?_⟩
  rw [← List.tail_drop, h, List.tail_cons]

theorem operandAt_of_drop_nil (h : line.operands.drop place = []) :
    operandAt line place = .error ⟨.malformedOperand, line.text⟩ := by
  have hnone : line.operands[place]? = none := by
    rw [← List.head?_drop, h, List.head?_nil]
  simp only [operandAt, hnone]

/-- One step of reading operands: the operand at a place, then those behind it. -/
theorem operandBits_cons_eq {slot : Slot} {token : Bytes}
    (htoken : operandAt line place = .ok token) :
    operandBits line symbols place (slot :: slots) = do
      let bits ← slot.bits symbols line.address token
      let others ← operandBits line symbols (place + 1) slots
      return bits ||| others := by
  rw [operandBits, htoken, ok_bind]

theorem exists_operandBits_of_readAll {kinds : List OperandKind} {tokens : List Bytes}
    (h : OperandKind.ReadAll symbols kinds tokens) (hkinds : slots.map Slot.kind = kinds)
    (htokens : line.operands.drop place = tokens) :
    ∃ bits, operandBits line symbols place slots = .ok bits := by
  induction h generalizing slots place with
  | done surplus =>
      cases List.map_eq_nil_iff.1 hkinds
      exact ⟨0, rfl⟩
  | operand hreads hrest ih =>
      rcases List.map_eq_cons_iff.1 hkinds with ⟨slot, slots, rfl, rfl, hbehind⟩
      rcases operandAt_of_drop htokens with ⟨htoken, htokens⟩
      rcases Slot.exists_bits_of_reads hreads with ⟨bits, hbits⟩
      rcases ih hbehind htokens with ⟨others, hothers⟩
      refine ⟨bits ||| others, ?_⟩
      rw [operandBits_cons_eq htoken, hbits, ok_bind, hothers, ok_bind]
      rfl

theorem operandBits_of_firstFault {kinds : List OperandKind} {tokens : List Bytes} {fault : Fault}
    (h : OperandKind.FirstFault symbols line.text kinds tokens fault)
    (hkinds : slots.map Slot.kind = kinds) (htokens : line.operands.drop place = tokens) :
    operandBits line symbols place slots = .error fault := by
  induction h generalizing slots place with
  | missing =>
      rcases List.map_eq_cons_iff.1 hkinds with ⟨slot, slots, rfl, -, -⟩
      rw [operandBits, operandAt_of_drop_nil htokens]
      rfl
  | here hfails =>
      rcases List.map_eq_cons_iff.1 hkinds with ⟨slot, slots, rfl, rfl, -⟩
      rcases operandAt_of_drop htokens with ⟨htoken, -⟩
      rw [operandBits_cons_eq htoken, Slot.bits_of_fails hfails]
      rfl
  | later hreads hrest ih =>
      rcases List.map_eq_cons_iff.1 hkinds with ⟨slot, slots, rfl, rfl, hbehind⟩
      rcases operandAt_of_drop htokens with ⟨htoken, htokens⟩
      rcases Slot.exists_bits_of_reads hreads with ⟨bits, hbits⟩
      rw [operandBits_cons_eq htoken, hbits, ok_bind, ih hbehind htokens]
      rfl

/-- Only the operands that the slots ask for are read, and nothing of the line but them and its
address. -/
theorem operandBits_congr {line' : Line} (haddress : line'.address = line.address)
    (hneeded : place + slots.length ≤ line.operands.length)
    (hsame : ∀ i < place + slots.length, line'.operands[i]? = line.operands[i]?) :
    operandBits line' symbols place slots = operandBits line symbols place slots := by
  induction slots generalizing place with
  | nil => rfl
  | cons slot slots ih =>
      rw [List.length_cons] at hneeded hsame
      have hat : line.operands[place]? = some (line.operands.get ⟨place, by omega⟩) :=
        List.getElem?_eq_getElem _
      have htoken : operandAt line place = .ok (line.operands.get ⟨place, by omega⟩) :=
        operandAt_eq_ok.2 hat
      have htoken' : operandAt line' place = .ok (line.operands.get ⟨place, by omega⟩) :=
        operandAt_eq_ok.2 ((hsame place (by omega)).trans hat)
      rw [operandBits_cons_eq htoken, operandBits_cons_eq htoken', haddress,
        ih (by omega) fun i hi => hsame i (by omega)]

/-! ## Instructions -/

section Verdict

variable (line : Line) (symbols : SymbolTable) (catalog : Catalog)

/-- The mnemonic of a line is known, its shape is one that the format of the instruction can hold,
and the line has the operands of that shape. -/
def Accepts : Prop :=
  ∃ d shape, catalog.find? line.mnemonic = some d ∧ Shape.ofMnemonic? line.mnemonic = some shape ∧
    shape.allowedIn d.format = true ∧ OperandKind.ReadAll symbols shape.grammar line.operands

/-- Why an instruction has no word. A later reason is given only where the earlier ones do not
hold. -/
inductive Rejects : Fault → Prop
  | unknown (hcatalog : catalog.find? line.mnemonic = none) :
      Rejects ⟨.unknownOpcode, line.mnemonic⟩
  | shapeless {d : Descriptor} (hcatalog : catalog.find? line.mnemonic = some d)
      (hshape : Shape.ofMnemonic? line.mnemonic = none) : Rejects ⟨.shapeMismatch, line.mnemonic⟩
  | misshapen {d : Descriptor} {shape : Shape} (hcatalog : catalog.find? line.mnemonic = some d)
      (hshape : Shape.ofMnemonic? line.mnemonic = some shape)
      (hformat : shape.allowedIn d.format = false) :
      Rejects ⟨.shapeMismatch, mismatchToken line.mnemonic shape d.format⟩
  | operand {d : Descriptor} {shape : Shape} {fault : Fault}
      (hcatalog : catalog.find? line.mnemonic = some d)
      (hshape : Shape.ofMnemonic? line.mnemonic = some shape)
      (hformat : shape.allowedIn d.format = true)
      (hoperands : OperandKind.FirstFault symbols line.text shape.grammar line.operands fault) :
      Rejects fault

end Verdict

variable {catalog : Catalog} {d : Descriptor} {shape : Shape} {fault : Fault}

theorem accepts_or_rejects (line : Line) (symbols : SymbolTable) (catalog : Catalog) :
    Accepts line symbols catalog ∨ ∃ fault, Rejects line symbols catalog fault := by
  cases hcatalog : catalog.find? line.mnemonic with
  | none => exact .inr ⟨_, .unknown hcatalog⟩
  | some d =>
      cases hshape : Shape.ofMnemonic? line.mnemonic with
      | none => exact .inr ⟨_, .shapeless hcatalog hshape⟩
      | some shape =>
          cases hformat : shape.allowedIn d.format with
          | false => exact .inr ⟨_, .misshapen hcatalog hshape hformat⟩
          | true =>
              rcases OperandKind.readAll_or_firstFault symbols line.text shape.grammar
                line.operands with
                hread | ⟨fault, hfault⟩
              · exact .inl ⟨d, shape, hcatalog, hshape, hformat, hread⟩
              · exact .inr ⟨fault, .operand hcatalog hshape hformat hfault⟩

/-- A known instruction is encoded by reading the operands in the slots of its shape. -/
theorem encode_of_slots (hcatalog : catalog.find? line.mnemonic = some d)
    (hshape : Shape.ofMnemonic? line.mnemonic = some shape)
    (hslots : shape.slots? d.format = some slots) :
    encode line symbols catalog = (do
      let body ← operandBits line symbols 0 slots
      return d.opcodeBits ||| body |||
        (if shape.hasFunction d.format then d.functionBits else 0)) := by
  rw [encode, Catalog.find_of_some hcatalog, ok_bind]
  simp only [hshape, hslots]

theorem exists_word_of_accepts (h : Accepts line symbols catalog) :
    ∃ word, encode line symbols catalog = .ok word := by
  rcases h with ⟨d, shape, hcatalog, hshape, hformat, hread⟩
  rcases Shape.exists_slots_of_allowedIn hformat with ⟨slots, hslots, hkinds⟩
  rcases exists_operandBits_of_readAll hread hkinds List.drop_zero with ⟨body, hbody⟩
  refine ⟨d.opcodeBits ||| body ||| (if shape.hasFunction d.format then d.functionBits else 0), ?_⟩
  rw [encode_of_slots hcatalog hshape hslots, hbody]
  rfl

theorem encode_of_rejects (h : Rejects line symbols catalog fault) :
    encode line symbols catalog = .error fault := by
  cases h with
  | unknown hcatalog =>
      rw [encode, Catalog.find_of_none hcatalog]
      rfl
  | shapeless hcatalog hshape =>
      rw [encode, Catalog.find_of_some hcatalog, ok_bind]
      simp only [hshape]
      rfl
  | @misshapen d shape hcatalog hshape hformat =>
      have hslots : shape.slots? d.format = none := by
        rw [← Shape.isSome_slots?] at hformat
        simpa using hformat
      rw [encode, Catalog.find_of_some hcatalog, ok_bind]
      simp only [hshape, hslots]
      rfl
  | operand hcatalog hshape hformat hoperands =>
      rcases Shape.exists_slots_of_allowedIn hformat with ⟨slots, hslots, hkinds⟩
      rw [encode_of_slots hcatalog hshape hslots,
        operandBits_of_firstFault hoperands hkinds List.drop_zero]
      rfl

/-- Operands beyond the grammar of an instruction do not change what becomes of it. -/
theorem encode_congr {line' : Line} (hmnemonic : line'.mnemonic = line.mnemonic)
    (haddress : line'.address = line.address)
    (h : ∀ shape, Shape.ofMnemonic? line.mnemonic = some shape →
      shape.grammar.length ≤ line.operands.length ∧
        line.operands.take shape.grammar.length <+: line'.operands) :
    encode line' symbols catalog = encode line symbols catalog := by
  rw [encode, encode, hmnemonic]
  congr 1
  funext d
  cases hshape : Shape.ofMnemonic? line.mnemonic with
  | none => rfl
  | some shape =>
      cases hslots : shape.slots? d.format with
      | none => simp only [hslots]
      | some slots =>
          have hlength : slots.length = shape.grammar.length := by
            rw [← Shape.map_kind_slots hslots, List.length_map]
          rcases h shape hshape with ⟨hneeded, more, hmore⟩
          -- The slots are as many as the operands of the grammar, and those are the same.
          have hbits : operandBits line' symbols 0 slots = operandBits line symbols 0 slots := by
            apply operandBits_congr haddress (by omega)
            intro i hi
            have hi : i < shape.grammar.length := by omega
            rw [← hmore, List.getElem?_append_left (by rw [List.length_take]; omega),
              List.getElem?_take_of_lt hi]
          simp only [hslots, hbits]

/-- An instruction has a word exactly when it is accepted. Otherwise its fault is the one it is
rejected for. Two instructions that begin with the same operands, as many as their shape asks for,
fare alike whatever stands behind them. -/
theorem encode_follows_grammar (line : Line) (symbols : SymbolTable) (catalog : Catalog) :
    ((∃ word, encode line symbols catalog = .ok word) ↔ Accepts line symbols catalog) ∧
      (∀ fault, encode line symbols catalog = .error fault ↔ Rejects line symbols catalog fault) ∧
      ∀ line' : Line, line'.mnemonic = line.mnemonic → line'.address = line.address →
        (∀ shape, Shape.ofMnemonic? line.mnemonic = some shape →
          shape.grammar.length ≤ line.operands.length ∧
            line.operands.take shape.grammar.length <+: line'.operands) →
        encode line' symbols catalog = encode line symbols catalog := by
  -- both directions follow from the forward ones, since one of the two verdicts always holds
  refine ⟨⟨?_, exists_word_of_accepts⟩, fun fault => ⟨?_, encode_of_rejects⟩,
    fun line' => encode_congr⟩
  · rintro ⟨word, hword⟩
    rcases accepts_or_rejects line symbols catalog with haccepts | ⟨fault, hrejects⟩
    · exact haccepts
    · rw [encode_of_rejects hrejects] at hword
      cases hword
  · intro herror
    rcases accepts_or_rejects line symbols catalog with haccepts | ⟨fault', hrejects⟩
    · rcases exists_word_of_accepts haccepts with ⟨word, hword⟩
      rw [hword] at herror
      cases herror
    · rw [encode_of_rejects hrejects] at herror
      cases herror
      exact hrejects

/-- A store of a double register with operands that its shape does not ask for. -/
def sampleSurplus (register : Bytes) (surplus : List Bytes) : Line :=
  { kind := .instruction, tokens := [], mnemonic := utf8 "sd",
    operands := [utf8 "-8(r1)", register] ++ surplus }

theorem sampleSurplus_follows_grammar :
    Accepts (sampleSurplus (utf8 "f2") [utf8 "r99"]) .empty .builtin ∧
      Rejects (sampleSurplus (utf8 "f3") [utf8 "r99"]) .empty .builtin ⟨.oddDouble, utf8 "f3"⟩ ∧
      encode (sampleSurplus (utf8 "f2") []) .empty .builtin =
        encode (sampleSurplus (utf8 "f2") [utf8 "r99"]) .empty .builtin := by
  have hword : encode (sampleSurplus (utf8 "f2") [utf8 "r99"]) .empty .builtin =
      .ok 0xBC22FFF8 := by
    decide +kernel
  have hodd : encode (sampleSurplus (utf8 "f3") [utf8 "r99"]) .empty .builtin =
      .error ⟨.oddDouble, utf8 "f3"⟩ := by
    decide +kernel
  have hshape : Shape.ofMnemonic? (utf8 "sd") = some .memoryDpr := by decide +kernel
  rcases encode_follows_grammar (sampleSurplus (utf8 "f2") [utf8 "r99"]) .empty .builtin with
    ⟨haccepts, -, hsurplus⟩
  rcases encode_follows_grammar (sampleSurplus (utf8 "f3") [utf8 "r99"]) .empty .builtin with
    ⟨-, hrejects, -⟩
  refine ⟨haccepts.1 ⟨_, hword⟩, (hrejects _).1 hodd, hsurplus _ rfl rfl ?_⟩
  intro shape h
  cases hshape.symm.trans h
  exact ⟨by decide, [], rfl⟩

end Instruction

end Dlx
