import Dlx.Assembly.Assemble
import Dlx.Isa.Builtin
import Dlx.Proofs.Labels
import Dlx.Proofs.Text

/-!
# Code behind a file

Text that is appended to a file leaves the file as it was assembled, as long as it defines none of
its labels again. The first pass never looks ahead, so that the lines of the file are placed as
before; the second pass looks at more labels than before, but those of the file still stand for the
same addresses.

* `SymbolTable.Extends`: a table in which every label of another one stands for the same address
* `encodeLine_extends`: what can be encoded with a table is encoded alike with a larger one
* `SymbolTable.restrict_foldl_addLine`: lines that define none of the labels of a table add to it
  only
* `appending_keeps_assembly`: rows, lines and labels of a file are those it has at the start of a
  longer one
-/

namespace Dlx

/-! ## Larger tables -/

namespace SymbolTable

/-- Every label of a table stands for the same address in the other one. -/
def Extends (t t' : SymbolTable) : Prop :=
  ∀ label address, t.find? label = some address → t'.find? label = some address

theorem Extends.resolve? {t t' : SymbolTable} (h : t.Extends t') {name : Bytes} {address : UInt32}
    (hname : t.resolve? name = some address) : t'.resolve? name = some address :=
  h _ _ hname

end SymbolTable

section Extends

variable {t t' : SymbolTable} (h : t.Extends t')

include h

namespace Operand

-- A literal is read before any label is looked up, so that a label more cannot take its place.

theorem immediate_extends (token : Bytes) : Preserves (immediate t token) (immediate t' token) := by
  intro value hvalue
  unfold immediate at hvalue ⊢
  cases hliteral : literal? token with
  | some literal => simpa [hliteral] using hvalue
  | none =>
      cases hname : t.resolve? token with
      | none => simp [hliteral, hname] at hvalue
      | some address => simpa [hliteral, hname, h.resolve? hname] using hvalue

theorem displacement_extends (address : UInt32) (token : Bytes) :
    Preserves (displacement t address token) (displacement t' address token) := by
  intro value hvalue
  unfold displacement at hvalue ⊢
  cases hliteral : literal? token with
  | some literal => simpa [hliteral] using hvalue
  | none =>
      cases hname : t.resolve? token with
      | none => simp [hliteral, hname] at hvalue
      | some target => simpa [hliteral, hname, h.resolve? hname] using hvalue

theorem memory_extends (token : Bytes) : Preserves (memory t token) (memory t' token) := by
  unfold memory
  cases splitMemory? token with
  | none =>
      apply (immediate_extends h token).bind
      intro value
      exact Preserves.refl _
  | some parts =>
      rcases parts with ⟨offset, base⟩
      cases offset with
      | nil => exact Preserves.refl _
      | cons b rest =>
          apply (immediate_extends h (b :: rest)).bind
          intro value
          exact Preserves.refl _

theorem word_extends (token : Bytes) : Preserves (word t token) (word t' token) := by
  intro value hvalue
  unfold word at hvalue ⊢
  cases hhex : hexDigits? (Bytes.dropStart (utf8 "-") token) with
  | some hex => simpa [hhex] using hvalue
  | none =>
      cases hinteger : Numeral.integer 10 64 token with
      | ok literal => simpa [hhex, hinteger] using hvalue
      | error flaw =>
          cases hname : t.resolve? token with
          | none => simp [hhex, hinteger, hname] at hvalue
          | some address => simpa [hhex, hinteger, hname, h.resolve? hname] using hvalue

end Operand

theorem Slot.bits_extends (slot : Slot) (address : UInt32) (token : Bytes) :
    Preserves (slot.bits t address token) (slot.bits t' address token) := by
  cases slot with
  | register file field => exact Preserves.refl _
  | immediate field => exact (Operand.immediate_extends h token).map _
  | displacement field => exact (Operand.displacement_extends h address token).map _
  | memory => exact (Operand.memory_extends h token).map _

namespace Instruction

theorem operandBits_extends (line : Line) (place : Nat) (slots : List Slot) :
    Preserves (operandBits line t place slots) (operandBits line t' place slots) := by
  induction slots generalizing place with
  | nil => exact Preserves.refl _
  | cons slot slots ih =>
      apply (Preserves.refl (operandAt line place)).bind
      intro token
      apply (slot.bits_extends h line.address token).bind
      intro bits
      apply (ih (place + 1)).bind
      intro others
      exact Preserves.refl _

theorem encode_extends (line : Line) (catalog : Catalog) :
    Preserves (encode line t catalog) (encode line t' catalog) := by
  apply (Preserves.refl (catalog.find line.mnemonic)).bind
  intro descriptor
  cases Shape.ofMnemonic? line.mnemonic with
  | none => exact Preserves.refl _
  | some shape =>
      dsimp only
      cases shape.slots? descriptor.format with
      | none => exact Preserves.refl _
      | some slots =>
          apply (operandBits_extends h line 0 slots).bind
          intro body
          exact Preserves.refl _

end Instruction

theorem Directive.elementText_extends (kind : LineKind) (value : Bytes) :
    Preserves (elementText kind t value) (elementText kind t' value) := by
  cases kind with
  | ascii | asciiz | double | float => exact Preserves.refl _
  | _ => exact (Operand.word_extends h value).map hex8

theorem Directive.encode_extends (line : Line) : Preserves (encode line t) (encode line t') := by
  unfold encode
  split
  · apply Preserves.mapM
    intro e
    exact (elementText_extends h line.kind e.value).map _
  · exact Preserves.refl _

/-- What can be encoded with a table is encoded alike with a larger one. -/
theorem encodeLine_extends (catalog : Catalog) (line : Line) :
    Preserves (encodeLine t catalog line) (encodeLine t' catalog line) := by
  unfold encodeLine
  split
  · exact (Instruction.encode_extends h line catalog).map _
  · exact Directive.encode_extends h line

end Extends

/-! ## Tables of longer files -/

namespace SymbolTable

/-- The part of a table that holds the labels in `keep`. -/
def restrict (t : SymbolTable) (keep : Bytes → Bool) : SymbolTable :=
  ⟨t.entries.filter (fun e => keep e.1)⟩

/-- Whether a table holds a label. -/
def holds (t : SymbolTable) (label : Bytes) : Bool :=
  (t.find? label).isSome

theorem restrict_holds (t : SymbolTable) : t.restrict t.holds = t := by
  have hall : t.entries.filter (fun e => t.holds e.1) = t.entries := by
    refine List.filter_eq_self.2 fun e he => ?_
    rcases exists_lookup_of_mem he with ⟨address, haddress, -⟩
    simp [holds, find?, haddress]
  simp [restrict, hall]

theorem restrict_insert (t : SymbolTable) {keep : Bytes → Bool} {label : Bytes}
    (h : keep label = false) (address : UInt32) :
    (t.insert label address).restrict keep = t.restrict keep := by
  -- An entry that makes way for the new one is not kept either.
  have hkept : ∀ e : Bytes × UInt32, (keep e.1 && e.1 != label) = keep e.1 := by
    intro e
    by_cases hlabel : e.1 = label
    · simp [hlabel, h]
    · simp [hlabel]
  simp [restrict, insert, List.filter_append, List.filter_filter, hkept, h]

theorem restrict_addLine (t : SymbolTable) {keep : Bytes → Bool} {line : Line}
    (h : ∀ label ∈ labelsOf line, keep label = false) :
    (t.addLine line).restrict keep = t.restrict keep := by
  unfold addLine
  generalize labelsOf line = labels at h ⊢
  induction labels generalizing t with
  | nil => rfl
  | cons label labels ih =>
      rcases List.forall_mem_cons.1 h with ⟨hlabel, hlabels⟩
      calc
        (labels.foldl (fun t label => t.insert label line.address)
            (t.insert label line.address)).restrict keep =
            (t.insert label line.address).restrict keep := ih (t.insert label line.address) hlabels
        _ = t.restrict keep := t.restrict_insert hlabel line.address

/-- Lines that define none of the labels in `keep` do not change that part of a table. -/
theorem restrict_foldl_addLine (t : SymbolTable) {keep : Bytes → Bool} {lines : List Line}
    (h : ∀ line ∈ lines, ∀ label ∈ labelsOf line, keep label = false) :
    (lines.foldl addLine t).restrict keep = t.restrict keep := by
  induction lines generalizing t with
  | nil => rfl
  | cons line lines ih =>
      rcases List.forall_mem_cons.1 h with ⟨hline, hlines⟩
      calc
        (lines.foldl addLine (t.addLine line)).restrict keep
            = (t.addLine line).restrict keep := ih (t.addLine line) hlines
        _ = t.restrict keep := t.restrict_addLine hline

theorem ofLines_append (front back : List Line) :
    ofLines (front ++ back) = back.foldl addLine (ofLines front) :=
  List.foldl_append

/-- Lines that define no label of the lines in front of them leave the table of these in the table
of all. -/
theorem restrict_ofLines_append {front back : List Line}
    (h : ∀ line ∈ back, ∀ label ∈ labelsOf line, (ofLines front).holds label = false) :
    (ofLines (front ++ back)).restrict (ofLines front).holds = ofLines front := by
  simp [ofLines_append, restrict_foldl_addLine _ h, restrict_holds]

theorem extends_ofLines_append {front back : List Line}
    (h : ∀ line ∈ back, ∀ label ∈ labelsOf line, (ofLines front).holds label = false) :
    (ofLines front).Extends (ofLines (front ++ back)) := by
  intro label address haddress
  have hnone : lastDefinition? label back = none := by
    refine List.find?_eq_none.2 fun line hline hdefines => ?_
    have hnot := h line (List.mem_reverse.1 hline) label (by simpa using hdefines)
    simp [holds, haddress] at hnot
  simp [ofLines_append, find?_foldl_addLine, hnone, haddress]

end SymbolTable

/-! ## Longer files -/

namespace Layout

variable {file source more : Bytes} {program program' : Program}

/-- The lines of a file stand at the start of a longer one, and what follows them comes from what
was appended. -/
theorem exists_lines_append (hnewline : source.getLast? = some 0x0A)
    (h : layout file source = .ok program) (h' : layout file (source ++ more) = .ok program') :
    ∃ below, program'.lines = program.lines ++ below ∧
      ∀ line ∈ below, ∃ raw ∈ (Lines.ofBytes more).lines, line.tokens = tokenize raw := by
  rcases layout_eq_ok.1 h' with ⟨-, -, hfits, -⟩
  have hwhole := lines_eq_append h' (Lines.lines_append hnewline hfits)
  have hfront := lines_eq_append h (List.append_nil (Lines.ofBytes source).lines).symm
  refine ⟨((counterBehind (Lines.ofBytes source).lines).records
    (numbered (Lines.ofBytes source).lines.length (Lines.ofBytes more).lines)).reduceOption, ?_, ?_⟩
  · simpa [hfront, numbered, Counter.records] using hwhole
  · intro line hline
    exact exists_raw_of_mem_records hline

theorem holds_eq_false (h : layout file source = .ok program) {label : Bytes}
    (hlabel : ∀ raw ∈ (Lines.ofBytes source).lines, ¬ Defines (tokenize raw) label) :
    (SymbolTable.ofLines program.lines).holds label = false := by
  by_contra hholds
  rcases Option.isSome_iff_exists.1 (Bool.eq_true_of_not_eq_false hholds) with ⟨address, haddress⟩
  rcases SymbolTable.exists_find?_ofLines_iff.1 ⟨address, haddress⟩ with ⟨line, hline, hdefines⟩
  rcases exists_raw_of_mem_lines h hline with ⟨raw, hraw, htokens⟩
  rw [SymbolTable.mem_labelsOf_iff, htokens] at hdefines
  exact hlabel raw hraw hdefines

end Layout

theorem assemble_eq_ok {catalog : Catalog} {file source : Bytes} {result : Assembly} :
    assemble catalog file source = .ok result ↔
      layout file source = .ok result.program ∧ result.symbols = .ofLines result.program.lines ∧
        encode result.program result.symbols catalog = .ok result.rows := by
  constructor
  · intro h
    rcases bind_eq_ok.1 h with ⟨program, hprogram, h⟩
    rcases bind_eq_ok.1 h with ⟨rows, hrows, h⟩
    cases pure_eq_ok.1 h
    exact ⟨hprogram, rfl, hrows⟩
  · rintro ⟨hprogram, hsymbols, hrows⟩
    refine bind_eq_ok.2 ⟨result.program, hprogram, bind_eq_ok.2 ⟨result.rows, ?_, ?_⟩⟩
    · rw [← hsymbols]
      exact hrows
    · rw [← hsymbols]
      rfl

/-- The rows of the lines in front of others, with a larger table. -/
theorem encode_append {file : Bytes} {front back : List Line} {symbols symbols' : SymbolTable}
    {catalog : Catalog} {rows rows' : List Row} (hextends : symbols.Extends symbols')
    (h : encode ⟨file, front⟩ symbols catalog = .ok rows)
    (h' : encode ⟨file, front ++ back⟩ symbols' catalog = .ok rows') : rows <+: rows' := by
  rcases map_eq_ok.1 h with ⟨groups, hgroups, rfl⟩
  rcases map_eq_ok.1 h' with ⟨groups', hgroups', rfl⟩
  have hfront : front.mapM (encodeLineOf file symbols' catalog) = .ok groups :=
    Preserves.mapM (fun line => (encodeLine_extends hextends catalog line).mapError _) front
      groups hgroups
  rw [List.mapM_append] at hgroups'
  rcases bind_eq_ok.1 hgroups' with ⟨first, hfirst, hrest⟩
  rcases bind_eq_ok.1 hrest with ⟨others, -, hall⟩
  cases hfront.symm.trans hfirst
  cases pure_eq_ok.1 hall
  exact ⟨others.flatten, by simp⟩

/-- Appending to a file is local. Where a file that ends in a newline is assembled by itself and
with more text behind it, and that text defines none of its labels again, its rows and its lines are
the first ones of the longer file, and its labels are those that the longer file has of them, at the
same addresses. -/
theorem appending_keeps_assembly {catalog : Catalog} {file source more : Bytes}
    {result result' : Assembly} (hnewline : source.getLast? = some 0x0A)
    (h : assemble catalog file source = .ok result)
    (h' : assemble catalog file (source ++ more) = .ok result')
    (hlabels : ∀ raw ∈ (Lines.ofBytes more).lines, ∀ label, Defines (tokenize raw) label →
      ∀ earlier ∈ (Lines.ofBytes source).lines, ¬ Defines (tokenize earlier) label) :
    result.rows <+: result'.rows ∧ result.program.lines <+: result'.program.lines ∧
      result'.symbols.restrict result.symbols.holds = result.symbols := by
  rcases assemble_eq_ok.1 h with ⟨hprogram, hsymbols, hrows⟩
  rcases assemble_eq_ok.1 h' with ⟨hprogram', hsymbols', hrows'⟩
  rcases Layout.exists_lines_append hnewline hprogram hprogram' with ⟨below, hlines, hbelow⟩
  have hnew : ∀ line ∈ below, ∀ label ∈ SymbolTable.labelsOf line,
      (SymbolTable.ofLines result.program.lines).holds label = false := by
    intro line hline label hlabel
    rcases hbelow line hline with ⟨raw, hraw, htokens⟩
    rw [SymbolTable.mem_labelsOf_iff, htokens] at hlabel
    exact Layout.holds_eq_false hprogram (hlabels raw hraw label hlabel)
  -- The new lines define none of the old labels, so the longer table extends the shorter one.
  rw [hlines] at hsymbols'
  refine ⟨?_, ⟨below, hlines.symm⟩, ?_⟩
  · have hfile : result'.program = ⟨result.program.file, result.program.lines ++ below⟩ := by
      rcases exists_places_of_layout hprogram with ⟨-, -, -, -, hfile⟩
      rcases exists_places_of_layout hprogram' with ⟨-, -, -, -, hfile'⟩
      rw [← hlines, hfile, ← hfile']
    rw [hfile] at hrows'
    refine encode_append ?_ hrows hrows'
    rw [hsymbols, hsymbols']
    exact SymbolTable.extends_ofLines_append hnew
  · rw [hsymbols, hsymbols']
    exact SymbolTable.restrict_ofLines_append hnew

/-- A source with a label, and text behind it that uses the label and defines another. -/
def sampleAppended : Bytes × Bytes :=
  (utf8 "nop\nx: lw r1, x(r2)\n.word x\n", utf8 "y: addi r1, r0, y\nj x\n")

theorem sampleAppended_keeps_assembly :
    ∃ result result', assemble .builtin [] sampleAppended.1 = .ok result ∧
      assemble .builtin [] (sampleAppended.1 ++ sampleAppended.2) = .ok result' ∧
      result'.rows.map Row.value =
        [utf8 "00000000", utf8 "8c410004", utf8 "00000004", utf8 "2001000c", utf8 "0bfffff0"] ∧
      result'.symbols = ⟨[(utf8 "x:", 4), (utf8 "y:", 12)]⟩ ∧
      result.rows <+: result'.rows ∧ result.program.lines <+: result'.program.lines ∧
      result'.symbols.restrict result.symbols.holds = result.symbols := by
  have hfirst : (assemble .builtin [] sampleAppended.1).toOption.isSome = true := by decide +kernel
  have hboth : (assemble .builtin [] (sampleAppended.1 ++ sampleAppended.2)).map
      (fun result => (result.rows.map Row.value, result.symbols)) =
      .ok ([utf8 "00000000", utf8 "8c410004", utf8 "00000004", utf8 "2001000c", utf8 "0bfffff0"],
        ⟨[(utf8 "x:", 4), (utf8 "y:", 12)]⟩) := by
    decide +kernel
  have hlabels : ∀ raw ∈ (Lines.ofBytes sampleAppended.2).lines, ∀ label,
      Defines (tokenize raw) label →
      ∀ earlier ∈ (Lines.ofBytes sampleAppended.1).lines, ¬ Defines (tokenize earlier) label := by
    intro raw hraw label hlabel
    have hall : ∀ raw ∈ (Lines.ofBytes sampleAppended.2).lines,
        ∀ label ∈ ((tokenize raw).take 2).takeWhile isLabel,
        ∀ earlier ∈ (Lines.ofBytes sampleAppended.1).lines, ¬ Defines (tokenize earlier) label := by
      decide +kernel
    exact hall raw hraw label (SymbolTable.defines_iff_mem.1 hlabel)
  rcases map_eq_ok.1 hboth with ⟨result', hresult', hview⟩
  cases hresult : assemble .builtin [] sampleAppended.1 with
  | error e =>
      rw [hresult] at hfirst
      cases hfirst
  | ok result =>
      exact ⟨result, result', rfl, hresult', congrArg Prod.fst hview, congrArg Prod.snd hview,
        appending_keeps_assembly (by decide +kernel) hresult hresult' hlabels⟩

end Dlx
