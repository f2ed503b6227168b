import Dlx.Isa.Builtin
import Dlx.Proofs.LabelUses
import Dlx.Proofs.SectionAddresses
import Dlx.Proofs.Tokens

/-!
# Relocation

A file that never sets a section goes where the section directive in front of it says. Assembled at
two addresses it gives two images that differ in their addresses, in the words that hold the address
of a label, and in nothing else.

* `atOrigin`: a source behind a section directive
* `Row.Relocated`: a row of the first image and the row that stands for it in the second
* `assemble_atOrigin_relocates`: both files fail at the same place, or both are assembled with rows
  that correspond
-/

namespace Dlx

/-! ## The section directive -/

/-- A numeral that a section directive reads as an address, short enough for a line. -/
structure Origin (numeral : Bytes) (address : UInt32) : Prop where
  value : Cursor.sectionAddress [numeral] = .ok address
  fits : Lines.fits (utf8 ".text " ++ numeral) = true

/-- A source behind a directive that starts a section at an address. -/
def atOrigin (numeral source : Bytes) : Bytes :=
  utf8 ".text " ++ numeral ++ utf8 "\n" ++ source

namespace Origin

variable {numeral : Bytes} {address : UInt32}

theorem isAlphanumeric (h : Origin numeral address) : ∀ b ∈ numeral, isAlphanumeric b = true :=
  Cursor.isAlphanumeric_of_sectionAddress h.value

theorem ne_nil (h : Origin numeral address) : numeral ≠ [] := by
  rintro rfl
  have hrefused : Cursor.sectionAddress [[]] = .error ⟨.malformedDirective, []⟩ := by decide +kernel
  cases hrefused.symm.trans h.value

theorem not_mem (h : Origin numeral address) {b : UInt8} (hb : Dlx.isAlphanumeric b = false)
    (hdirective : b ∉ utf8 ".text ") : b ∉ utf8 ".text " ++ numeral := by
  intro hmem
  rcases List.mem_append.1 hmem with hmem | hmem
  · exact hdirective hmem
  · rw [h.isAlphanumeric b hmem] at hb
    cases hb

theorem tokenize_line (h : Origin numeral address) :
    tokenize (utf8 ".text " ++ numeral) = [utf8 ".text", numeral] := by
  have hdirective : utf8 ".text " = utf8 ".text" ++ [0x20] := by decide +kernel
  rw [hdirective]
  apply tokenize_apart _ _ _ _ _ h.ne_nil
  · decide +kernel
  · exact fun b hb => isInner_of_isAlphanumeric (h.isAlphanumeric b hb)
  · decide +kernel
  · decide +kernel
  · decide

theorem dropReturn_line (h : Origin numeral address) :
    Lines.dropReturn (utf8 ".text " ++ numeral) = utf8 ".text " ++ numeral := by
  apply if_neg
  intro hlast
  have hmem : (0x0D : UInt8) ∈ utf8 ".text " ++ numeral := List.mem_of_getLast? hlast
  exact h.not_mem (by decide) (by decide +kernel) hmem

theorem lines_atOrigin (h : Origin numeral address) (source : Bytes) :
    Lines.ofBytes (atOrigin numeral source) =
      ⟨(utf8 ".text " ++ numeral) :: (Lines.ofBytes source).lines,
        (Lines.ofBytes source).overlong⟩ := by
  have hnewline : utf8 "\n" = [0x0A] := by decide +kernel
  have hmark : (0x0A : UInt8) ∉ utf8 ".text " ++ numeral :=
    h.not_mem (by decide) (by decide +kernel)
  rw [atOrigin, hnewline, List.append_assoc, List.singleton_append,
    Lines.ofBytes_append_newline hmark h.fits, h.dropReturn_line]

theorem isComment_eq_false (h : Origin numeral address) : isComment numeral = false := by
  cases numeral with
  | nil => rfl
  | cons b rest =>
      have hb := h.isAlphanumeric b List.mem_cons_self
      have hne : b ≠ 0x3B := by
        rintro rfl
        cases hb
      simpa [isComment] using hne

/-- The line of the directive. -/
theorem ofTokens?_line (h : Origin numeral address) (lineno : Int) :
    Line.ofTokens? [utf8 ".text", numeral] lineno =
      some
        { kind := .text
          tokens := [utf8 ".text", numeral]
          mnemonic := utf8 ".text"
          operands := [numeral]
          lineno } := by
  have hcomment : isComment (utf8 ".text") = false := by decide +kernel
  have hlabel : looksLikeLabel (utf8 ".text") = false := by decide +kernel
  have hkind : LineKind.ofMnemonic (utf8 ".text") = .text := by decide +kernel
  simp [Line.ofTokens?, Line.splitLabels, hcomment, hlabel, hkind, h.isComment_eq_false]

end Origin

/-! ## The first pass behind the directive -/

namespace Layout

/-- The pass behind a directive in the first line that starts a section. -/
def Pass.behindOrigin (address : UInt32) : Pass :=
  ⟨⟨address, 0, false⟩, 1, []⟩

theorem Pass.behindOrigin_shift (a b : UInt32) :
    (Pass.behindOrigin a).shift (b - a) = Pass.behindOrigin b := by
  have haddress : a + (b - a) = b := by grind
  simp [behindOrigin, shift, Cursor.shift, haddress]

theorem Pass.step_origin {numeral : Bytes} {address : UInt32} (h : Origin numeral address)
    (file : Bytes) :
    Pass.step file .start (utf8 ".text " ++ numeral) = .ok (behindOrigin address) := by
  unfold Pass.step
  rw [h.tokenize_line, h.ofTokens?_line]
  simp only [Cursor.place, h.value, ok_bind]
  rfl

theorem layout_atOrigin {numeral : Bytes} {address : UInt32} (h : Origin numeral address)
    (file source : Bytes) :
    layout file (atOrigin numeral source) =
      outcome file (Lines.ofBytes source).overlong
        (runUntil (Pass.step file) (Pass.behindOrigin address) (Lines.ofBytes source).lines) := by
  have hrun : runUntil (Pass.step file) .start
      ((utf8 ".text " ++ numeral) :: (Lines.ofBytes source).lines) =
      runUntil (Pass.step file) (Pass.behindOrigin address) (Lines.ofBytes source).lines := by
    rw [runUntil, Pass.step_origin h]
  rw [layout_eq_outcome, h.lines_atOrigin, hrun]

theorem exists_mem_numbered {raws : List Bytes} {raw : Bytes} (hraw : raw ∈ raws) {lineno : Int}
    {line : Line} (hline : Line.ofTokens? (tokenize raw) lineno = some line) (before : Nat) :
    ∃ lineno', { line with lineno := lineno' } ∈ numbered before raws := by
  induction raws generalizing before with
  | nil => cases hraw
  | cons first rest ih =>
      rcases List.mem_cons.1 hraw with rfl | hrest
      · refine ⟨(before + 1 : Nat), List.mem_append_left _ (Option.mem_toList.2 ?_)⟩
        rw [Line.ofTokens?_lineno _ lineno, hline]
        rfl
      · rcases ih hrest (before + 1) with ⟨lineno', hmem⟩
        exact ⟨lineno', List.mem_append_right _ hmem⟩

theorem movable_of_mem_lines {d : UInt32} {source raw : Bytes}
    (hsource : ∀ line ∈ sourceLines source, line.Movable d)
    (hraw : raw ∈ (Lines.ofBytes source).lines) :
    ∀ lineno line, Line.ofTokens? (tokenize raw) lineno = some line → line.Movable d := by
  intro lineno line hline
  rcases exists_mem_numbered hraw hline 0 with ⟨lineno', hmem⟩
  have hmovable := hsource _ hmem
  exact ⟨hmovable.not_text, hmovable.not_data, hmovable.align⟩

theorem layout_relocates {numeral numeral' source : Bytes} {a b : UInt32} (ha : Origin numeral a)
    (hb : Origin numeral' b) (hsource : ∀ line ∈ sourceLines source, line.Movable (b - a))
    (file : Bytes) :
    Corresponds (fun e e' => e' = AssemblyError.shift (b - a) e)
      (fun program program' =>
        program' = { program with lines := program.lines.map (Line.shift (b - a)) })
      (layout file (atOrigin numeral source)) (layout file (atOrigin numeral' source)) := by
  rw [layout_atOrigin ha, layout_atOrigin hb, ← Pass.behindOrigin_shift a b,
    runUntil_shift file fun raw hraw => movable_of_mem_lines hsource hraw]
  rcases runUntil (Pass.step file) (Pass.behindOrigin a) (Lines.ofBytes source).lines with
    ⟨pass, error⟩
  cases error with
  | some error => exact .error rfl
  | none =>
      cases (Lines.ofBytes source).overlong with
      | true =>
          -- An over-long line is reported by its number alone.
          exact .error rfl
      | false =>
          refine .ok ?_
          simp [Pass.shift]

end Layout

/-! ## Rows -/

/-- A row and the row that stands for it when everything is moved by `d`. Its address is moved. An
instruction that takes the address of a label has `d` added in the field of the address, and a word
directive that names a label has `d` added to its word; every other content stays as it is. -/
inductive Row.Relocated (catalog : Catalog) (d : UInt32) : Row → Row → Prop where
  | instruction {line : Line} {word : UInt32} (hkind : line.kind = .instruction)
      (hword : Instruction.takesAddress line = false) :
      Relocated catalog d ⟨line.address, .word word, some line⟩
        ⟨line.address + d, .word word, some (line.shift d)⟩
  | address {line : Line} {descriptor : Descriptor} {word : UInt32}
      (hkind : line.kind = .instruction) (hlabel : Instruction.takesAddress line = true)
      (hdescriptor : catalog.find line.mnemonic = .ok descriptor) :
      Relocated catalog d ⟨line.address, .word word, some line⟩
        ⟨line.address + d, .word (descriptor.format.addressField.add word d), some (line.shift d)⟩
  | element {line : Line} {e : Element} {text : Bytes} (he : e ∈ line.elements)
      (hkind : line.kind.isData = true)
      (hvalue : line.kind = .word → Operand.wordTakesAddress e.value = false) :
      Relocated catalog d ⟨e.address, .text text, some line⟩
        ⟨e.address + d, .text text, some (line.shift d)⟩
  | label {line : Line} {e : Element} {value : UInt32} (he : e ∈ line.elements)
      (hkind : line.kind = .word) (hlabel : Operand.wordTakesAddress e.value = true) :
      Relocated catalog d ⟨e.address, .text (hex8 value), some line⟩
        ⟨e.address + d, .text (hex8 (value + d)), some (line.shift d)⟩

section Rows

variable {d : UInt32} (symbols : SymbolTable) (catalog : Catalog) {line : Line}

/-- Only a word directive looks at the labels. -/
theorem Directive.elementText_shift {kind : LineKind} (hdata : kind.isData = true)
    (hkind : kind ≠ .word) (value : Bytes) :
    elementText kind (symbols.shift d) value = elementText kind symbols value := by
  cases kind with
  | word => exact absurd rfl hkind
  | ascii | asciiz | double | float => rfl
  | _ => cases hdata

theorem Directive.elementRow_relocates (hdata : line.kind.isData = true) {e : Element}
    (he : e ∈ line.elements) :
    Corresponds Eq (Row.Relocated catalog d) (elementRow line symbols e)
      (elementRow (line.shift d) (symbols.shift d) (e.shift d)) := by
  have hkindShift : (line.shift d).kind = line.kind := rfl
  have hvalueShift : (e.shift d).value = e.value := rfl
  unfold elementRow
  rw [hkindShift, hvalueShift]
  -- Words alone can hold the address of a label; the text of every other element does not look at
  -- the symbols.
  by_cases hkind : line.kind = .word
  · have hword : Corresponds Eq
        (fun text text' => ∃ value, text = hex8 value ∧
          text' = hex8 (if Operand.wordTakesAddress e.value then value + d else value))
        (elementText line.kind symbols e.value)
          (elementText line.kind (symbols.shift d) e.value) := by
      rw [hkind]
      apply (Operand.word_shift symbols e.value).map
      rintro value value' rfl
      exact ⟨value, rfl, rfl⟩
    apply hword.map
    rintro text text' ⟨value, rfl, rfl⟩
    cases hlabel : Operand.wordTakesAddress e.value with
    | true => exact .label he hkind hlabel
    | false => exact .element he hdata fun _ => hlabel
  · rw [elementText_shift symbols hdata hkind]
    apply (Corresponds.refl (fun _ => rfl) (elementText line.kind symbols e.value)).map
    intro text text' htext
    cases htext
    exact .element he hdata fun hword => absurd hword hkind

theorem encodeLine_relocates :
    Corresponds Eq (List.Forall₂ (Row.Relocated catalog d)) (encodeLine symbols catalog line)
      (encodeLine (symbols.shift d) catalog (line.shift d)) := by
  have hkindShift : (line.shift d).kind = line.kind := rfl
  unfold encodeLine Directive.encode
  rw [hkindShift]
  split
  · rename_i hkind
    apply (Instruction.encode_shift catalog).map
    rintro word word' ⟨descriptor, hdescriptor, rfl⟩
    cases hlabel : Instruction.takesAddress line with
    | false => exact .cons (.instruction hkind hlabel) .nil
    | true => exact .cons (.address hkind hlabel hdescriptor) .nil
  · split
    · rename_i hdata
      apply Corresponds.mapM
      apply List.forall₂_map_right_iff.2
      apply List.forall₂_same.2
      intro e he
      exact Directive.elementRow_relocates symbols catalog hdata he
    · exact .ok .nil

end Rows

/-! ## Both passes -/

/-- An assembly and what becomes of it when everything is moved by `d`. -/
structure Assembly.Relocated (catalog : Catalog) (d : UInt32) (result result' : Assembly) :
    Prop where
  file : result'.program.file = result.program.file
  lines : result'.program.lines = result.program.lines.map (Line.shift d)
  symbols : result'.symbols = result.symbols.shift d
  rows : List.Forall₂ (Row.Relocated catalog d) result.rows result'.rows
  branches : ∀ line ∈ result.program.lines, Instruction.isBranch line = true →
    Instruction.takesAddress line = false

theorem encode_relocates {d : UInt32} (catalog : Catalog) (program : Program)
    (symbols : SymbolTable) :
    Corresponds (fun e e' => e' = AssemblyError.shift d e) (List.Forall₂ (Row.Relocated catalog d))
      (encode program symbols catalog)
      (encode { program with lines := program.lines.map (Line.shift d) } (symbols.shift d)
        catalog) := by
  have hlines : Corresponds (fun e e' => e' = AssemblyError.shift d e)
      (List.Forall₂ (List.Forall₂ (Row.Relocated catalog d)))
      (program.lines.mapM (encodeLineOf program.file symbols catalog))
      ((program.lines.map (Line.shift d)).mapM
        (encodeLineOf program.file (symbols.shift d) catalog)) := by
    apply Corresponds.mapM
    apply List.forall₂_map_right_iff.2
    apply List.forall₂_same.2
    intro line _
    apply (encodeLine_relocates symbols catalog).mapError
    rintro fault fault' rfl
    rfl
  apply hlines.map
  intro rows rows' hrows
  exact List.rel_flatten hrows

/-- A file behind one section directive and behind another one, for every spelling of the two
addresses. Both cannot be assembled, for the same reason at the same line, or both are, and the
second is the first moved by the distance between the addresses. -/
theorem assemble_atOrigin_relocates {numeral numeral' source : Bytes} {a b : UInt32}
    (ha : Origin numeral a) (hb : Origin numeral' b)
    (hsource : ∀ line ∈ Layout.sourceLines source, line.Movable (b - a)) (catalog : Catalog)
    (file : Bytes) :
    Corresponds (fun e e' => e' = AssemblyError.shift (b - a) e)
      (Assembly.Relocated catalog (b - a)) (assemble catalog file (atOrigin numeral source))
      (assemble catalog file (atOrigin numeral' source)) := by
  apply (Layout.layout_relocates ha hb hsource file).bind
  -- From here on the second file is the first one shifted, line by line.
  rintro program program' - rfl
  have hsymbols := @SymbolTable.ofLines_shift (b - a) program.lines
  dsimp only
  rw [hsymbols]
  apply (encode_relocates catalog program _).bind
  intro rows rows' _ hrows
  exact .ok ⟨rfl, rfl, rfl, hrows,
    fun line _ hbranch => Instruction.takesAddress_of_isBranch hbranch⟩

/-- A source that uses a label as an offset, as a target, as an immediate and as a word. -/
def sampleMoved : Bytes :=
  utf8 "x: lw r1, x(r2)\nbeqz r1, x\n.align 3\ntrap x\n.word x, 7\n"

/-- It is moved across a boundary of its 16-bit fields, where they wrap. -/
theorem sampleMoved_relocates :
    ∃ result result', assemble .builtin [] (atOrigin (utf8 "ff00") sampleMoved) = .ok result ∧
      assemble .builtin [] (atOrigin (utf8 "0x00010100") sampleMoved) = .ok result' ∧
      result.rows.map Row.value =
        [utf8 "8c41ff00", utf8 "1020fff8", utf8 "4400ff00", utf8 "0000ff00", utf8 "00000007"] ∧
      result'.rows.map Row.value =
        [utf8 "8c410100", utf8 "1020fff8", utf8 "44000100", utf8 "00010100", utf8 "00000007"] ∧
      Assembly.Relocated .builtin 0x200 result result' := by
  have hrows : (assemble .builtin [] (atOrigin (utf8 "ff00") sampleMoved)).map
      (fun result => result.rows.map Row.value) =
        .ok [utf8 "8c41ff00", utf8 "1020fff8", utf8 "4400ff00", utf8 "0000ff00",
          utf8 "00000007"] := by
    decide +kernel
  have hrows' : (assemble .builtin [] (atOrigin (utf8 "0x00010100") sampleMoved)).map
      (fun result => result.rows.map Row.value) =
        .ok [utf8 "8c410100", utf8 "1020fff8", utf8 "44000100", utf8 "00010100",
          utf8 "00000007"] := by
    decide +kernel
  rcases map_eq_ok.1 hrows with ⟨result, hresult, hvalues⟩
  rcases map_eq_ok.1 hrows' with ⟨result', hresult', hvalues'⟩
  have horigin : Origin (utf8 "ff00") 0xFF00 := ⟨by decide +kernel, by decide +kernel⟩
  have horigin' : Origin (utf8 "0x00010100") 0x10100 := ⟨by decide +kernel, by decide +kernel⟩
  have hmovable : ∀ line ∈ Layout.sourceLines sampleMoved, line.Movable (0x10100 - 0xFF00) := by
    decide +kernel
  have hmoved := assemble_atOrigin_relocates horigin horigin' hmovable .builtin []
  rw [hresult, hresult'] at hmoved
  cases hmoved with
  | ok hrelocated => exact ⟨result, result', hresult, hresult', hvalues, hvalues', hrelocated⟩

end Dlx
