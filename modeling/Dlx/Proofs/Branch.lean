import Dlx.Proofs.Encoding
import Dlx.Proofs.Rows
import Dlx.Proofs.Symbols

/-!
# Branches reach their labels

A branch or a jump holds the distance from the instruction behind it to its label, cut to the width
of a field, and nothing checks that the distance fits.

* `Shape.target?`: where the instructions of a displacement shape have their target, and the field
  it goes to
* `ImmediateField.read`: the field of a word, sign extended
* `ImmediateField.reaches`: where a branch leads, and the exact range of distances that survive its
  field
* `branch_reaches_last_definition`: where the branches of a file that is assembled lead to
-/

namespace Dlx

/-! ## Fields -/

namespace ImmediateField

/-- The field of a word, sign extended. -/
def read (field : ImmediateField) (word : UInt32) : UInt32 :=
  match field with
  | .imm16 => (Word.decode word).imm16
  | .imm26 => (Word.decode word).imm26

theorem one_le_width (field : ImmediateField) : 1 ≤ field.width := by
  cases field with
  | imm16 | imm26 => decide

theorem width_le_word (field : ImmediateField) : field.width ≤ 32 :=
  Nat.le_trans field.width_le (by decide)

theorem signed_read (field : ImmediateField) (word : UInt32) :
    Word.signed (field.read word) = Int.bmod word.toNat (2 ^ field.width) := by
  cases field with
  | imm16 => exact Word.signed_signExtend_mask (by decide) (by decide) (by decide) word
  | imm26 => exact Word.signed_signExtend_mask (by decide) (by decide) (by decide) word

variable {field : ImmediateField} {word distance : UInt32}

/-- A field that holds the lower bits of a distance reads as the residue of the distance. -/
theorem signed_read_eq_bmod
    (h : word.toNat % 2 ^ field.width = distance.toNat % 2 ^ field.width) :
    Word.signed (field.read word) = Int.bmod (Word.signed distance) (2 ^ field.width) := by
  calc
    Word.signed (field.read word)
        = Int.bmod word.toNat (2 ^ field.width) := field.signed_read word
    _ = Int.bmod distance.toNat (2 ^ field.width) := Word.bmod_natCast_eq_iff.2 h
    _ = Int.bmod (Word.signed distance) (2 ^ field.width) := by
          rw [Word.bmod_signed field.width_le_word]

/-- The lower bits of a distance survive its field. -/
theorem read_mod (h : word.toNat % 2 ^ field.width = distance.toNat % 2 ^ field.width) :
    (field.read word).toNat % 2 ^ field.width = distance.toNat % 2 ^ field.width :=
  (Word.toNat_mod_of_signed field.width_le_word (field.signed_read word)).trans h

/-- A distance survives its field as a whole exactly when the field is wide enough for it. -/
theorem read_eq_iff (h : word.toNat % 2 ^ field.width = distance.toNat % 2 ^ field.width) :
    field.read word = distance ↔
      -(2 ^ (field.width - 1) : Int) ≤ Word.signed distance ∧
        Word.signed distance < 2 ^ (field.width - 1) := by
  rw [← Word.signed_inj, signed_read_eq_bmod h, Word.bmod_two_pow_eq_self_iff field.one_le_width]

/-- Where a branch leads that holds the lower bits of the distance to `target`: to an address with
the same lower bits, and to `target` itself exactly when the field is wide enough for the
distance. -/
theorem reaches {address target : UInt32}
    (h : word.toNat % 2 ^ field.width = (target - (address + 4)).toNat % 2 ^ field.width) :
    (address + 4 + field.read word).toNat % 2 ^ field.width = target.toNat % 2 ^ field.width ∧
      (address + 4 + field.read word = target ↔
        -(2 ^ (field.width - 1) : Int) ≤ Word.signed (target - (address + 4)) ∧
          Word.signed (target - (address + 4)) < 2 ^ (field.width - 1)) := by
  have hback : address + 4 + (target - (address + 4)) = target := by
    rw [UInt32.add_comm, UInt32.sub_add_cancel]
  constructor
  · have hdvd : 2 ^ field.width ∣ 2 ^ 32 := Nat.pow_dvd_pow 2 field.width_le_word
    calc
      (address + 4 + field.read word).toNat % 2 ^ field.width
          = ((address + 4).toNat + (field.read word).toNat) % 2 ^ field.width := by
            rw [UInt32.toNat_add, Nat.mod_mod_of_dvd _ hdvd]
      _ = ((address + 4).toNat + (target - (address + 4)).toNat) % 2 ^ field.width := by
            rw [Nat.add_mod, read_mod h, ← Nat.add_mod]
      _ = (address + 4 + (target - (address + 4))).toNat % 2 ^ field.width := by
            rw [UInt32.toNat_add _ (target - (address + 4)), Nat.mod_mod_of_dvd _ hdvd]
      _ = target.toNat % 2 ^ field.width := by rw [hback]
  · rw [← read_eq_iff h]
    constructor
    · rintro rfl
      rw [UInt32.add_comm (address + 4), UInt32.add_sub_cancel]
    · intro hread
      rw [hread, hback]

end ImmediateField

/-! ## Targets -/

namespace Shape

/-- Where the instructions of a displacement shape have their target, and the field it goes to. -/
def target? : Shape → Option (Nat × ImmediateField)
  | .gprLabel => some (1, .imm16)
  | .label16 => some (0, .imm16)
  | .label26 => some (0, .imm26)
  | _ => none

/-- A displacement shape is none of the families that are read otherwise. -/
theorem families_of_target? {shape : Shape} {target : Nat × ImmediateField}
    (h : shape.target? = some target) :
    shape.loadFile? = none ∧ shape.storeFile? = none ∧ shape.moveFiles? = none ∧
      shape.tripleFile? = none ∧ shape.compareFile? = none := by
  cases shape with
  | gprLabel | label16 | label26 => exact ⟨rfl, rfl, rfl, rfl, rfl⟩
  | _ => cases h

end Shape

namespace Instruction

variable {line : Line} {symbols : SymbolTable} {shape : Shape} {place : Nat}
  {field : ImmediateField}

theorem FieldsJ.displacement {low : Nat} (h : FieldsJ line symbols shape low)
    (htarget : shape.target? = some (place, field)) :
    field = .imm26 ∧ ∃ distance, DisplacementAt line symbols place distance ∧
      low = distance.toNat % 2 ^ 26 := by
  cases h with
  | nullary | immediate => cases htarget
  | @jump distance hdistance =>
      cases htarget
      exact ⟨rfl, distance, hdistance, rfl⟩

theorem FieldsI.displacement {function rs1 rs2 low : Nat}
    (h : FieldsI line symbols function shape rs1 rs2 low)
    (htarget : shape.target? = some (place, field)) :
    field = .imm16 ∧ ∃ distance, DisplacementAt line symbols place distance ∧
      low = distance.toNat % 2 ^ 16 := by
  rcases Shape.families_of_target? htarget with ⟨hload, hstore, hmove, -, -⟩
  cases h with
  | nullary | immediate | register | high => cases htarget
  | @condition r distance _ hdistance =>
      cases htarget
      exact ⟨rfl, distance, hdistance, rfl⟩
  | @branch distance hdistance =>
      cases htarget
      exact ⟨rfl, distance, hdistance, rfl⟩
  | arithmetic hshape =>
      rcases hshape with rfl | rfl
      · cases htarget
      · cases htarget
  | load hshape => cases hload.symm.trans hshape
  | store hshape => cases hstore.symm.trans hshape
  | move hshape => cases hmove.symm.trans hshape

theorem FieldsR.target?_eq_none {rs1 rs2 rd : Nat} (h : FieldsR line shape rs1 rs2 rd) :
    shape.target? = none := by
  cases htarget : shape.target? with
  | none => rfl
  | some target =>
      rcases Shape.families_of_target? htarget with ⟨-, -, hmove, htriple, hcompare⟩
      cases h with
      | nullary => cases htarget
      | triple hshape => cases htriple.symm.trans hshape
      | compare hshape => cases hcompare.symm.trans hshape
      | move hshape => cases hmove.symm.trans hshape

/-- The word of a branch has the lower bits of its distance in its field. -/
theorem Holds.displacement {d : Descriptor} {word : UInt32} (h : Holds line symbols d shape word)
    (htarget : shape.target? = some (place, field)) :
    ∃ distance, DisplacementAt line symbols place distance ∧
      word.toNat % 2 ^ field.width = distance.toNat % 2 ^ field.width := by
  unfold Holds at h
  split at h
  · rcases h.displacement htarget with ⟨rfl, distance, hdistance, hlow⟩
    exact ⟨distance, hdistance, hlow⟩
  · rcases h.displacement htarget with ⟨rfl, distance, hdistance, hlow⟩
    exact ⟨distance, hdistance, hlow⟩
  -- The other two formats hold no displacement.
  · cases htarget.symm.trans h.1.target?_eq_none
  · rcases h with ⟨rfl, -⟩
    cases htarget

/-- The distance to a label is taken from the instruction behind the branch. -/
theorem DisplacementAt.exists_target {name : Bytes} {distance : UInt32}
    (h : DisplacementAt line symbols place distance) (hname : line.operands[place]? = some name)
    (hlabel : Operand.literal? name = none) :
    ∃ target, symbols.resolve? name = some target ∧ distance = target - (line.address + 4) := by
  rcases h with ⟨token, htoken, hdistance⟩
  cases hname.symm.trans htoken
  simp only [Operand.displacement, hlabel] at hdistance
  split at hdistance
  · rename_i target htarget
    cases hdistance
    exact ⟨target, htarget, rfl⟩
  · cases hdistance

end Instruction

/-! ## Labels of a file -/

/-- What a label stands for is where the program has the last definition of the source. -/
theorem exists_last_definition {symbols : SymbolTable} {catalog : Catalog} {source label : Bytes}
    {lines : List Line} {traces : List Trace} {target : UInt32}
    (hlines : lines = (traces.map Trace.kept).reduceOption)
    (hruns : List.Forall₂ (Trace.Runs symbols catalog) (Layout.sourceLines source) traces)
    (hfind : (SymbolTable.ofLines lines).find? label = some target) :
    ∃ line elements, SymbolTable.lastDefinition? label (Layout.sourceLines source) = some line ∧
      { line with address := target, elements } ∈ lines := by
  have hkept : List.Forall₂ Line.Kept (Layout.sourceLines source) (traces.map Trace.kept) := by
    have hsource := (List.forall₂_and_left (Layout.sourceLines source) traces).2
      ⟨fun line hline => hline, hruns⟩
    refine List.forall₂_map_right_iff.2 (hsource.imp ?_)
    rintro line trace ⟨hline, ⟨c, c', hplaced⟩, -⟩
    exact Line.kept_of_placed hline hplaced
  rw [SymbolTable.find?_ofLines] at hfind
  rcases Option.map_eq_some_iff.1 hfind with ⟨placed, hplaced, rfl⟩
  have hmem : placed ∈ lines := List.mem_reverse.1 (List.mem_of_find?_eq_some hplaced)
  rw [hlines] at hplaced
  rcases SymbolTable.lastDefinition?_reduceOption label hkept with ⟨-, hnone⟩ | hsome
  · cases hnone.symm.trans hplaced
  · rcases hsome with ⟨line, address, elements, hline, hsame⟩
    cases hsame.symm.trans hplaced
    exact ⟨line, elements, hline, hmem⟩

/-- Branches and jumps lead to the last definition of their label, wherever it stands in the file,
up to the width of their field: always modulo that width, and exactly when the distance fits. -/
theorem branch_reaches_last_definition {catalog : Catalog} {file source name : Bytes}
    {result : Assembly} {line : Line} {shape : Shape} {place : Nat} {field : ImmediateField}
    (h : assemble catalog file source = .ok result) (hline : line ∈ Layout.sourceLines source)
    (hkind : line.kind = .instruction) (hshape : Shape.ofMnemonic? line.mnemonic = some shape)
    (hplace : shape.target? = some (place, field)) (hname : line.operands[place]? = some name)
    (hlabel : Operand.literal? name = none) :
    ∃ (address word target : UInt32) (definition : Line) (elements : List Element),
      (⟨address, .word word, some { line with address }⟩ : Row) ∈ result.rows ∧
      SymbolTable.lastDefinition? (name ++ utf8 ":") (Layout.sourceLines source) = some definition ∧
      { definition with address := target, elements } ∈ result.program.lines ∧
      (address + 4 + field.read word).toNat % 2 ^ field.width = target.toNat % 2 ^ field.width ∧
      (address + 4 + field.read word = target ↔
        -(2 ^ (field.width - 1) : Int) ≤ Word.signed (target - (address + 4)) ∧
          Word.signed (target - (address + 4)) < 2 ^ (field.width - 1)) := by
  rcases exists_traces_of_assemble h with ⟨hsymbols, traces, hlines, hrows, hruns⟩
  rcases exists_mem_of_forall₂ hruns hline with ⟨trace, htrace, hrun⟩
  rcases hrun.exists_word hkind with ⟨address, word, hencode, hrow⟩
  rcases Instruction.exists_holds_of_encode hencode with ⟨d, shape', -, hshape', -, hholds⟩
  cases hshape.symm.trans hshape'
  rcases hholds.displacement hplace with ⟨distance, hdistance, hlow⟩
  rcases hdistance.exists_target hname hlabel with ⟨target, htarget, rfl⟩
  rw [hsymbols] at htarget
  rcases exists_last_definition hlines hruns htarget with ⟨definition, elements, hlast, hmem⟩
  have hrowmem : (⟨address, .word word, some { line with address }⟩ : Row) ∈ result.rows := by
    rw [hrows]
    refine List.mem_flatten.2 ⟨trace.rows, List.mem_map_of_mem htrace, ?_⟩
    rw [hrow]
    exact List.mem_singleton_self _
  exact ⟨address, word, target, definition, elements, hrowmem, hlast, hmem,
    ImmediateField.reaches hlow⟩

/-- A source whose branch takes the last of two definitions, one word further than it can reach. -/
def sampleBranch : Bytes :=
  utf8 "beqz r1, end\nend: nop\n.text 8004\nend: nop\n"

/-- The line of its branch. -/
def sampleBranchLine : Line :=
  { kind := .instruction
    tokens := [utf8 "beqz", utf8 "r1", utf8 "end"]
    mnemonic := utf8 "beqz"
    operands := [utf8 "r1", utf8 "end"]
    lineno := 1 }

theorem sampleBranch_reaches_last_definition :
    ∃ result, assemble .builtin [] sampleBranch = .ok result ∧
      result.rows.map (fun row => (row.address, row.word?)) =
        [(0, some 0x10208000), (4, some 0), (0x8004, some 0)] ∧
      sampleBranchLine ∈ Layout.sourceLines sampleBranch ∧
      Shape.ofMnemonic? (utf8 "beqz") = some .gprLabel ∧ Operand.literal? (utf8 "end") = none ∧
      ∃ (address word target : UInt32) (definition : Line) (elements : List Element),
        (⟨address, .word word, some { sampleBranchLine with address }⟩ : Row) ∈ result.rows ∧
        SymbolTable.lastDefinition? (utf8 "end" ++ utf8 ":") (Layout.sourceLines sampleBranch) =
          some definition ∧
        { definition with address := target, elements } ∈ result.program.lines ∧
        (address + 4 + ImmediateField.imm16.read word).toNat % 2 ^ 16 = target.toNat % 2 ^ 16 ∧
        (address + 4 + ImmediateField.imm16.read word = target ↔
          -(2 ^ 15 : Int) ≤ Word.signed (target - (address + 4)) ∧
            Word.signed (target - (address + 4)) < 2 ^ 15) := by
  have hassemble : (assemble .builtin [] sampleBranch).map
      (fun result => result.rows.map (fun row => (row.address, row.word?))) =
      .ok [(0, some 0x10208000), (4, some 0), (0x8004, some 0)] := by
    decide +kernel
  have hline : sampleBranchLine ∈ Layout.sourceLines sampleBranch := by decide +kernel
  have hshape : Shape.ofMnemonic? (utf8 "beqz") = some .gprLabel := by decide +kernel
  have hlabel : Operand.literal? (utf8 "end") = none := by decide +kernel
  rcases map_eq_ok.1 hassemble with ⟨result, hresult, hrows⟩
  exact ⟨result, hresult, hrows, hline, hshape, hlabel,
    branch_reaches_last_definition hresult hline rfl hshape rfl rfl hlabel⟩

end Dlx
