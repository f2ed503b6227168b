import Dlx.Assembly.Assemble
import Dlx.Isa.Builtin
import Dlx.Proofs.Sizes

/-!
# The rows of a file

The first pass reserves memory for a data element and the second pass writes its bytes, each with
rules of its own. This module shows that they agree on every line of every file:

* `IsHex`: a text of a given number of hexadecimal digits
* `Directive.Reserves`: how many bytes the first pass keeps for an operand, kind by kind
* `Directive.isHex_elementText`: the second pass writes two digits for each of them
* `Trace`: what the two passes make of one line, and `Trace.Agrees`, what has to hold of it
* `rows_agree_with_lines`: line by line and in order, the rows of a file are those of its source
-/

namespace Dlx

/-! ## Hexadecimal digits -/

/-- A hexadecimal digit, in lower case. -/
def isHexDigit (b : UInt8) : Bool :=
  (0x30 ≤ b && b ≤ 0x39) || (0x61 ≤ b && b ≤ 0x66)

/-- A text of exactly `count` hexadecimal digits. -/
structure IsHex (count : Nat) (text : Bytes) : Prop where
  length : text.length = count
  digits : text.all isHexDigit = true

theorem isHexDigit_hexDigit {value : Nat} (h : value < 16) :
    isHexDigit (Bytes.hexDigit value) = true := by
  have hall : ∀ n : Fin 16, isHexDigit (Bytes.hexDigit n.val) = true := by decide
  exact hall ⟨value, h⟩

theorem isHex_hex (width value : Nat) : IsHex width (Bytes.hex width value) := by
  induction width generalizing value with
  | zero => exact ⟨rfl, rfl⟩
  | succ width ih =>
      have hrest := ih (value / 16)
      have hlast : isHexDigit (Bytes.hexDigit (value % 16)) = true :=
        isHexDigit_hexDigit (Nat.mod_lt value (by decide))
      constructor
      · simp [Bytes.hex, hrest.length]
      · simp [Bytes.hex, hrest.digits, hlast]

theorem IsHex.append {m n : Nat} {first second : Bytes} (hfirst : IsHex m first)
    (hsecond : IsHex n second) :
    IsHex (m + n) (first ++ second) where
  length := by rw [List.length_append, hfirst.length, hsecond.length]
  digits := by rw [List.all_append, hfirst.digits, hsecond.digits, Bool.and_self]

/-! ## One operand -/

namespace Directive

theorem isHex_hexText (text : Bytes) : IsHex (2 * text.length) (hexText text) := by
  induction text with
  | nil => exact ⟨rfl, rfl⟩
  | cons b rest ih =>
      have hboth : IsHex (2 + 2 * rest.length) (Bytes.hex 2 b.toNat ++ hexText rest) :=
        (isHex_hex 2 b.toNat).append ih
      have hcount : 2 * (b :: rest).length = 2 + 2 * rest.length := by
        rw [List.length_cons]
        omega
      rw [hcount]
      exact hboth

/-- What the first pass keeps of an operand of a data directive, and how many bytes it reserves. -/
def Reserves (kind : LineKind) (operand : Bytes) (e : Element) : Prop :=
  match kind with
  | .ascii => Literal.value? operand = some e.value ∧ e.size.toNat = e.value.length
  | .asciiz => Literal.value? operand = some e.value ∧ e.size.toNat = e.value.length + 1
  | .double => e.value = operand ∧ e.size.toNat = 8
  | _ => e.value = operand ∧ e.size.toNat = 4

theorem reserves_of_element {kind : LineKind} {operand : Bytes} {e : Element}
    (hshort : ∀ value, Literal.value? operand = some value → value.length < 2 ^ 20)
    (h : element kind operand = .ok e) : Reserves kind operand e := by
  -- The sizes of strings are words: they count the bytes because the bytes are few.
  have hsmall : ∀ value, Literal.value? operand = some value →
      value.length.toUInt32.toNat = value.length := by
    intro value hvalue
    have hlt := hshort value hvalue
    exact UInt32.toNat_ofNat_of_lt' (Nat.lt_trans hlt (by decide))
  cases kind with
  | ascii =>
      simp only [element] at h
      split at h
      · rename_i text htext
        cases h
        exact ⟨htext, hsmall text htext⟩
      · cases h
  | asciiz =>
      simp only [element] at h
      split at h
      · rename_i text htext
        cases h
        refine ⟨htext, ?_⟩
        have hlt := hshort text htext
        show (text.length.toUInt32 + 1).toNat = text.length + 1
        rw [UInt32.toNat_add, hsmall text htext]
        exact Nat.mod_eq_of_lt (by simp only [UInt32.toNat_one]; omega)
      · cases h
  | _ =>
      cases h
      exact ⟨rfl, rfl⟩

theorem isHex_realText {format : Binary.Format} {value text : Bytes}
    (h : realText format value = .ok text) :
    IsHex (format.width / 4) text := by
  unfold realText at h
  split at h
  · cases h
    exact isHex_hex _ _
  · cases h

/-- The second pass writes two digits for every byte that the first pass reserved. -/
theorem isHex_elementText {kind : LineKind} {symbols : SymbolTable} {operand text : Bytes}
    {e : Element} (hreserved : Reserves kind operand e)
    (htext : elementText kind symbols e.value = .ok text) :
    IsHex (2 * e.size.toNat) text := by
  cases kind with
  | ascii =>
      cases htext
      rw [hreserved.2]
      exact isHex_hexText e.value
  | asciiz =>
      cases htext
      have hzero : IsHex 2 (utf8 "00") := ⟨by decide, by decide⟩
      rw [hreserved.2, Nat.mul_add]
      exact (isHex_hexText e.value).append hzero
  | double =>
      rw [hreserved.2]
      exact isHex_realText htext
  | float =>
      rw [hreserved.2]
      exact isHex_realText htext
  | _ =>
      rcases map_eq_ok.1 htext with ⟨word, -, rfl⟩
      rw [hreserved.2]
      exact isHex_hex 8 word.toNat

/-! ## The elements of a line -/

/-- Elements that stand one behind the other from an address on, modulo `2 ^ 32`. -/
def Consecutive : (address : UInt32) → List Element → Prop
  | _, [] => True
  | address, e :: rest => e.address = address ∧ Consecutive (address + e.size) rest

theorem consecutive_placeFrom (address : UInt32) (elements : List Element) :
    Consecutive address (placeFrom address elements) := by
  induction elements generalizing address with
  | nil => exact trivial
  | cons e rest ih => exact ⟨rfl, ih (address + e.size)⟩

theorem reserves_placeFrom {kind : LineKind} {operands : List Bytes} {elements : List Element}
    (address : UInt32) (h : List.Forall₂ (Reserves kind) operands elements) :
    List.Forall₂ (Reserves kind) operands (placeFrom address elements) := by
  induction h generalizing address with
  | nil => exact .nil
  | cons hfirst _ ih => exact .cons hfirst (ih _)

theorem reserves_of_elements {source : Bytes} {line : Line} {elements : List Element}
    (hline : line ∈ Layout.sourceLines source) (h : Directive.elements line = .ok elements) :
    List.Forall₂ (Reserves line.kind) line.operands elements := by
  unfold Directive.elements at h
  split at h
  · cases h
  · have hall : ∀ operand ∈ line.operands,
        ∀ value, Literal.value? operand = some value → value.length < 2 ^ 20 :=
      fun operand hoperand value hvalue => Layout.length_value_lt hline hoperand hvalue
    have hboth := (List.forall₂_and_left _ _).2 ⟨hall, mapM_eq_ok.1 h⟩
    exact hboth.imp fun operand e hpair => reserves_of_element hpair.1 hpair.2

end Directive

/-! ## One line in both passes -/

/-- What the two passes make of a line: what the program keeps of it, and its rows. -/
structure Trace where
  kept : Option Line
  rows : List Row

/-- The row of an item of a line: where it stands, where it comes from, and how many digits it
has. -/
structure Row.Holds (placed : Line) (address : UInt32) (digits : Nat) (row : Row) : Prop where
  address : row.address = address
  source : row.source = some placed
  value : IsHex digits row.value

/-- Whether lines of a kind have rows. -/
def LineKind.hasRows (kind : LineKind) : Bool :=
  kind = .instruction || kind.isData

/-- What has to hold of a line of a source: an instruction has one row at its own address, a data
directive has one row per operand, each with two digits for every byte that is reserved in front of
the next, and another line has none. -/
inductive Trace.Agrees (line : Line) : Trace → Prop where
  | instruction {address : UInt32} {row : Row} (hkind : line.kind = .instruction)
      (hrow : Row.Holds { line with address } address 8 row) :
      Agrees line ⟨some { line with address }, [row]⟩
  | data {address : UInt32} {elements : List Element} {rows : List Row}
      (hkind : line.kind.isData = true)
      (hreserved : List.Forall₂ (Directive.Reserves line.kind) line.operands elements)
      (hplaced : Directive.Consecutive address elements)
      (hrows : List.Forall₂ (fun e row => Row.Holds { line with address, elements } e.address
        (2 * e.size.toNat) row) elements rows) :
      Agrees line ⟨some { line with address, elements }, rows⟩
  | other {kept : Option Line} (hkind : line.kind.hasRows = false)
      (hkept : ∀ placed ∈ kept, ∃ address, placed = { line with address }) :
      Agrees line ⟨kept, []⟩

/-- The rows of what is kept of a line. -/
def Trace.Encoded (symbols : SymbolTable) (catalog : Catalog) (trace : Trace) : Prop :=
  match trace.kept with
  | none => trace.rows = []
  | some line => encodeLine symbols catalog line = .ok trace.rows

namespace Trace

variable {symbols : SymbolTable} {catalog : Catalog}

theorem agrees_of_not_hasRows {line : Line} {kept : Option Line} {rows : List Row}
    (hkind : line.kind.hasRows = false)
    (hkept : ∀ placed ∈ kept, ∃ address, placed = { line with address })
    (hrows : Encoded symbols catalog ⟨kept, rows⟩) : Agrees line ⟨kept, rows⟩ := by
  have hnone : rows = [] := by
    cases kept with
    | none => exact hrows
    | some placed =>
        rcases hkept placed rfl with ⟨address, rfl⟩
        have hsplit : line.kind ≠ .instruction ∧ line.kind.isData = false := by
          simpa [LineKind.hasRows] using hkind
        have hencode : (Except.ok [] : Except Fault (List Row)) = .ok rows := by
          simpa [Encoded, encodeLine, Directive.encode, hsplit.1, hsplit.2] using hrows
        exact (Except.ok.inj hencode).symm
  rw [hnone]
  exact .other hkind hkept

theorem exists_word_of_encoded {placed : Line} {rows : List Row}
    (h : Encoded symbols catalog ⟨some placed, rows⟩) (hkind : placed.kind = .instruction) :
    ∃ word, Instruction.encode placed symbols catalog = .ok word ∧
      rows = [⟨placed.address, .word word, some placed⟩] := by
  have hencode : (Instruction.encode placed symbols catalog).map
      (fun word => [⟨placed.address, .word word, some placed⟩]) = .ok rows := by
    simpa [Encoded, encodeLine, hkind] using h
  rcases map_eq_ok.1 hencode with ⟨word, hword, hrows⟩
  exact ⟨word, hword, hrows.symm⟩

theorem rows_hold {placed : Line} {operands : List Bytes} {elements : List Element}
    {rows : List Row} (hreserved : List.Forall₂ (Directive.Reserves placed.kind) operands elements)
    (hrows : List.Forall₂ (fun e row => Directive.elementRow placed symbols e = .ok row)
      elements rows) :
    List.Forall₂ (fun e row => Row.Holds placed e.address (2 * e.size.toNat) row)
      elements rows := by
  induction hrows generalizing operands with
  | nil => exact .nil
  | cons hrow _ ih =>
      cases hreserved with
      | cons hfirst hothers =>
          rcases map_eq_ok.1 hrow with ⟨text, htext, rfl⟩
          exact .cons ⟨rfl, rfl, Directive.isHex_elementText hfirst htext⟩ (ih hothers)

/-- One line: wherever it is placed, its rows are what they have to be. -/
theorem agrees_of_placed {source : Bytes} {c c' : Cursor} {line : Line} {kept : Option Line}
    {rows : List Row} (hline : line ∈ Layout.sourceLines source)
    (hplaced : Cursor.Placed c line c' kept) (hrows : Encoded symbols catalog ⟨kept, rows⟩) :
    Agrees line ⟨kept, rows⟩ := by
  cases hplaced with
  | quiet hkind =>
      refine agrees_of_not_hasRows ?_ (fun _ h => by cases h) hrows
      rcases hkind with hkind | hkind
      · rw [hkind]; rfl
      · rw [hkind]; rfl
  | label hkind =>
      exact agrees_of_not_hasRows (by rw [hkind]; rfl)
        (fun _ h => ⟨_, Cursor.eq_of_mem_placed h⟩) hrows
  | origin hkind haddress =>
      refine agrees_of_not_hasRows ?_ (fun _ h => ⟨_, Cursor.eq_of_mem_placedLabel h⟩) hrows
      rcases hkind with hkind | hkind
      · rw [hkind]; rfl
      · rw [hkind]; rfl
  | align hkind hsize =>
      exact agrees_of_not_hasRows (by rw [hkind]; rfl)
        (fun _ h => ⟨_, Cursor.eq_of_mem_placedLabel h⟩) hrows
  | space hkind hsize =>
      exact agrees_of_not_hasRows (by rw [hkind]; rfl)
        (fun _ h => ⟨_, Cursor.eq_of_mem_placed h⟩) hrows
  | instruction hkind =>
      rcases exists_word_of_encoded hrows hkind with ⟨word, -, rfl⟩
      exact .instruction hkind ⟨rfl, rfl, isHex_hex 8 word.toNat⟩
  | @data elements hkind helements =>
      -- The elements are those that the first pass reserved, so their texts have the digits for the
      -- bytes reserved there.
      have hreserved :=
        Directive.reserves_placeFrom c.next (Directive.reserves_of_elements hline helements)
      have hencode : (Directive.placeFrom c.next elements).mapM
          (Directive.elementRow
            { line with address := c.next, elements := Directive.placeFrom c.next elements }
              symbols) =
          .ok rows := by
        have hnot : line.kind ≠ .instruction := by
          intro h
          rw [h] at hkind
          cases hkind
        simpa [Encoded, Cursor.placed, encodeLine, Directive.encode, hkind, hnot] using hrows
      refine .data hkind hreserved (Directive.consecutive_placeFrom c.next elements) ?_
      exact rows_hold hreserved (mapM_eq_ok.1 hencode)

end Trace

/-! ## A whole file -/

/-- Both passes over one line. -/
structure Trace.Runs (symbols : SymbolTable) (catalog : Catalog) (line : Line) (trace : Trace) :
    Prop where
  placed : ∃ c c', Cursor.Placed c line c' trace.kept
  encoded : trace.Encoded symbols catalog

theorem Trace.Runs.exists_word {symbols : SymbolTable} {catalog : Catalog} {line : Line}
    {trace : Trace} (h : Trace.Runs symbols catalog line trace) (hkind : line.kind = .instruction) :
    ∃ address word, Instruction.encode { line with address } symbols catalog = .ok word ∧
      trace.rows = [⟨address, .word word, some { line with address }⟩] := by
  rcases trace with ⟨kept, rows⟩
  rcases h with ⟨⟨c, c', hplaced⟩, hencoded⟩
  cases hplaced with
  | instruction =>
      rcases Trace.exists_word_of_encoded hencoded hkind with ⟨word, hword, hrows⟩
      exact ⟨c.next, word, hword, hrows⟩
  | quiet hother | origin hother =>
      rcases hother with hother | hother
      · cases hkind.symm.trans hother
      · cases hkind.symm.trans hother
  | label hother | align hother | space hother => cases hkind.symm.trans hother
  | data hother =>
      rw [hkind] at hother
      cases hother

/-- A line that is not kept has no rows, so that the rows of a program can be told apart by the
lines of its source. -/
theorem exists_traces_of_places {symbols : SymbolTable} {catalog : Catalog} {c last : Cursor}
    {lines : List Line} {kept : List (Option Line)} {groups : List (List Row)}
    (hplaces : Cursor.Places c lines kept last)
    (hgroups : List.Forall₂ (fun line rows => encodeLine symbols catalog line = .ok rows)
      kept.reduceOption groups) :
    ∃ traces : List Trace, traces.map Trace.kept = kept ∧
      (traces.map Trace.rows).flatten = groups.flatten ∧
      List.Forall₂ (Trace.Runs symbols catalog) lines traces := by
  induction hplaces generalizing groups with
  | nil c =>
      cases hgroups
      exact ⟨[], rfl, rfl, .nil⟩
  | @cons c c' last line lines kept rest hline hlines ih =>
      cases kept with
      | none =>
          -- The second pass never sees the line; its empty trace keeps the lines in step.
          rw [List.reduceOption_cons_of_none] at hgroups
          rcases ih hgroups with ⟨traces, hkept, hrows, hruns⟩
          refine ⟨⟨none, []⟩ :: traces, ?_, ?_, .cons ⟨⟨c, c', hline⟩, rfl⟩ hruns⟩
          · rw [List.map_cons, hkept]
          · simpa using hrows
      | some placed =>
          rw [List.reduceOption_cons_of_some] at hgroups
          rcases List.forall₂_cons_left_iff.1 hgroups with ⟨rows, others, hplaced, hothers, rfl⟩
          rcases ih hothers with ⟨traces, hkept, hrows, hruns⟩
          refine ⟨⟨some placed, rows⟩ :: traces, ?_, ?_, .cons ⟨⟨c, c', hline⟩, hplaced⟩ hruns⟩
          · rw [List.map_cons, hkept]
          · simpa using hrows

/-- A file that is assembled went through both passes line by line, and the first of them was one
walk of the cursor. -/
theorem exists_placed_traces_of_assemble {catalog : Catalog} {file source : Bytes}
    {result : Assembly} (h : assemble catalog file source = .ok result) :
    result.symbols = SymbolTable.ofLines result.program.lines ∧
      ∃ (traces : List Trace) (last : Cursor),
        Cursor.Places .start (Layout.sourceLines source) (traces.map Trace.kept) last ∧
        result.program.lines = (traces.map Trace.kept).reduceOption ∧
        result.rows = (traces.map Trace.rows).flatten ∧
        List.Forall₂ (Trace.Runs result.symbols catalog) (Layout.sourceLines source) traces := by
  rcases bind_eq_ok.1 h with ⟨program, hprogram, h⟩
  rcases bind_eq_ok.1 h with ⟨rows, hrows, h⟩
  cases pure_eq_ok.1 h
  rcases map_eq_ok.1 hrows with ⟨groups, hgroups, rfl⟩
  rcases exists_places_of_layout hprogram with ⟨kept, last, hplaces, hlines, -⟩
  have hencoded : List.Forall₂
      (fun line rows => encodeLine (.ofLines program.lines) catalog line = .ok rows)
      kept.reduceOption groups := by
    rw [← hlines]
    exact (mapM_eq_ok.1 hgroups).imp fun line rows hline => mapError_eq_ok.1 hline
  rcases exists_traces_of_places hplaces hencoded with ⟨traces, hkept, hflatten, hruns⟩
  refine ⟨rfl, traces, last, ?_, ?_, hflatten.symm, hruns⟩
  · rw [hkept]
    exact hplaces
  · rw [hkept]
    exact hlines

/-- A file that is assembled went through both passes line by line. -/
theorem exists_traces_of_assemble {catalog : Catalog} {file source : Bytes} {result : Assembly}
    (h : assemble catalog file source = .ok result) :
    result.symbols = SymbolTable.ofLines result.program.lines ∧
      ∃ traces : List Trace, result.program.lines = (traces.map Trace.kept).reduceOption ∧
        result.rows = (traces.map Trace.rows).flatten ∧
        List.Forall₂ (Trace.Runs result.symbols catalog) (Layout.sourceLines source) traces := by
  rcases exists_placed_traces_of_assemble h with ⟨hsymbols, traces, -, -, hlines, hrows, hruns⟩
  exact ⟨hsymbols, traces, hlines, hrows, hruns⟩

/-- What the passes make of the lines of a source is what has to hold of them. -/
theorem forall₂_agrees_of_runs {symbols : SymbolTable} {catalog : Catalog} {source : Bytes}
    {traces : List Trace}
    (h : List.Forall₂ (Trace.Runs symbols catalog) (Layout.sourceLines source) traces) :
    List.Forall₂ Trace.Agrees (Layout.sourceLines source) traces := by
  have hsource := (List.forall₂_and_left (Layout.sourceLines source) traces).2
    ⟨fun line hline => hline, h⟩
  refine hsource.imp ?_
  intro line trace hboth
  rcases hboth with ⟨hline, ⟨c, c', hplaced⟩, hencoded⟩
  exact Trace.agrees_of_placed hline hplaced hencoded

/-- The two passes agree on every file that is assembled. -/
theorem rows_agree_with_lines {catalog : Catalog} {file source : Bytes} {result : Assembly}
    (h : assemble catalog file source = .ok result) :
    ∃ traces : List Trace, result.program.lines = (traces.map Trace.kept).reduceOption ∧
      result.rows = (traces.map Trace.rows).flatten ∧
      List.Forall₂ Trace.Agrees (Layout.sourceLines source) traces := by
  rcases exists_traces_of_assemble h with ⟨-, traces, hlines, hrows, hruns⟩
  exact ⟨traces, hlines, hrows, forall₂_agrees_of_runs hruns⟩

/-- A source with rows of every kind: the string holds an escape and a byte that is no character,
and the alignment behind it wraps. -/
def sampleData : Bytes :=
  utf8 "loop: lw r1, name(r2)\n.data fffffff8\nname: .asciiz \"a\\n" ++ [0xFF] ++
    utf8 "\"\n.align 2\n; note\n.double 1\n.float 0.5, 2\n.word -1, loop\n"

/-- The addresses and the texts of its rows. -/
def sampleDataRows : List (UInt32 × Bytes) :=
  [(0, utf8 "8c41fff8"), (0xFFFFFFF8, utf8 "610aefbfbd00"), (0, utf8 "3ff0000000000000"),
    (8, utf8 "3f000000"), (12, utf8 "40000000"), (16, utf8 "ffffffff"), (20, utf8 "00000000")]

theorem sampleData_rows_agree :
    ∃ result, assemble .builtin [] sampleData = .ok result ∧
      result.rows.map (fun row => (row.address, row.value)) = sampleDataRows ∧
      ∃ traces : List Trace, result.program.lines = (traces.map Trace.kept).reduceOption ∧
        result.rows = (traces.map Trace.rows).flatten ∧
        List.Forall₂ Trace.Agrees (Layout.sourceLines sampleData) traces := by
  have hassemble : (assemble .builtin [] sampleData).map
      (fun result => result.rows.map (fun row => (row.address, row.value))) =
        .ok sampleDataRows := by
    decide +kernel
  rcases map_eq_ok.1 hassemble with ⟨result, hresult, hrows⟩
  exact ⟨result, hresult, hrows, rows_agree_with_lines hresult⟩

end Dlx
