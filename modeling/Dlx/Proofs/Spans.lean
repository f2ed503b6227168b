import Dlx.Proofs.Counter
import Dlx.Proofs.Rows

/-!
# The memory of the rows

Every row of a file fills a stretch of memory. On the counter that never wraps these stretches are
known before anything is encoded:

* `Counter.spans`: the stretches of the rows of a list of lines, in order
* `Row.Fills`: a row stands where its stretch begins and has two digits for each of its bytes
* `Counter.firstSpaceKeeps`: the first space directive of a file gives back all of an instruction
  whose place it takes
* `rows_never_overlap`: within a section, rows follow one another without overlap

Only two kinds of lines can move the counter back: a section directive, and the first space
directive of a file when it stands directly behind an instruction. The first ends the section and
the second is the reason for the condition.
-/

namespace Dlx

/-- A stretch of memory on the unbounded counter, with the number of the line it belongs to. -/
structure Span where
  position : Nat
  size : Nat
  lineno : Int
  deriving DecidableEq, Repr

namespace Counter

/-! ## The stretches of the rows -/

/-- The stretches of elements that stand one behind the other from a location on. -/
def elementSpans (lineno : Int) : (location : Nat) → List Element → List Span
  | _, [] => []
  | location, e :: rest =>
    ⟨location, e.size.toNat, lineno⟩ :: elementSpans lineno (location + e.size.toNat) rest

/-- The stretches of the rows of a line: one word for an instruction, one stretch per element for a
data directive. -/
def lineSpans (k : Counter) (line : Line) : List Span :=
  match line.kind with
  | .instruction => [⟨k.position line, 4, line.lineno⟩]
  | .ascii | .asciiz | .double | .float | .word =>
    elementSpans line.lineno (k.position line) (elementsOf line)
  | _ => []

/-- The stretches of the rows of a list of lines. -/
def spans : Counter → List Line → List Span
  | _, [] => []
  | k, line :: rest => k.lineSpans line ++ spans (k.step line) rest

/-- Whether the first space directive of a list of lines reserves at least a word, or has no
instruction directly in front of it. Comments do not count; `afterInstruction` says what stands in
front of the list. -/
def firstSpaceKeeps : (afterInstruction : Bool) → List Line → Bool
  | _, [] => true
  | afterInstruction, line :: rest =>
    match line.kind with
    | .space => !afterInstruction || decide (4 ≤ amountOf line)
    | .reset | .comment => firstSpaceKeeps afterInstruction rest
    | kind => firstSpaceKeeps (kind = .instruction) rest

/-! ## One line -/

theorem lineSpans_of_not_hasRows (k : Counter) {line : Line} (h : line.kind.hasRows = false) :
    k.lineSpans line = [] := by
  cases hkind : line.kind with
  | instruction | ascii | asciiz | double | float | word =>
      simp [LineKind.hasRows, LineKind.isData, hkind] at h
  | _ => simp only [lineSpans, hkind]

theorem lineSpans_of_isData (k : Counter) {line : Line} (h : line.kind.isData = true) :
    k.lineSpans line = elementSpans line.lineno k.location (elementsOf line) := by
  cases hkind : line.kind with
  | ascii | asciiz | double | float | word => simp only [lineSpans, position, hkind]
  | _ => simp [LineKind.isData, hkind] at h

/-- Element by element: every stretch lies between the location and the end of the line, and they
follow one another. -/
theorem elementSpans_within {lineno : Int} {location : Nat} {elements : List Element} {s : Span}
    (h : s ∈ elementSpans lineno location elements) :
    s.lineno = lineno ∧ location ≤ s.position ∧
      s.position + s.size ≤ location + (elements.map (·.size.toNat)).sum := by
  induction elements generalizing location with
  | nil => cases h
  | cons e rest ih =>
      rw [List.map_cons, List.sum_cons]
      rcases List.mem_cons.1 h with rfl | hrest
      · exact ⟨rfl, Nat.le_refl _, by dsimp only; omega⟩
      · rcases ih hrest with ⟨hlineno, hfrom, hto⟩
        exact ⟨hlineno, by omega, by omega⟩

theorem elementSpans_pairwise (lineno : Int) (location : Nat) (elements : List Element) :
    (elementSpans lineno location elements).Pairwise
      (fun a b => a.position + a.size ≤ b.position) := by
  induction elements generalizing location with
  | nil => exact .nil
  | cons e rest ih =>
      refine .cons ?_ (ih _)
      intro s hs
      exact (elementSpans_within hs).2.1

/-- The stretches of a line lie between the counter in front of it and the counter behind it. -/
theorem lineSpans_within {k : Counter} {line : Line} {s : Span} (h : s ∈ k.lineSpans line) :
    s.lineno = line.lineno ∧ k.location ≤ s.position ∧
      s.position + s.size ≤ (k.step line).location := by
  by_cases hrows : line.kind.hasRows = true
  · by_cases hinstruction : line.kind = .instruction
    · have hspan : s = ⟨k.location, 4, line.lineno⟩ := by
        simpa [lineSpans, position, hinstruction] using h
      rw [hspan]
      simp [Counter.step, position, extent, hinstruction]
    · have hdata : line.kind.isData = true := by
        simpa [LineKind.hasRows, hinstruction] using hrows
      rw [lineSpans_of_isData k hdata] at h
      rw [(step_record_of_isData k hdata).1]
      exact elementSpans_within h
  · rw [lineSpans_of_not_hasRows k (Bool.eq_false_iff.2 hrows)] at h
    cases h

theorem lineSpans_pairwise (k : Counter) (line : Line) :
    (k.lineSpans line).Pairwise (fun a b => a.position + a.size ≤ b.position) := by
  by_cases hdata : line.kind.isData = true
  · rw [lineSpans_of_isData k hdata]
    exact elementSpans_pairwise line.lineno k.location (elementsOf line)
  · cases hkind : line.kind with
    | instruction => simp [lineSpans, hkind]
    | ascii | asciiz | double | float | word => simp [LineKind.isData, hkind] at hdata
    | _ => simp [lineSpans, hkind]

/-! ## The counter never goes back -/

/-- What is left of the condition on the first space directive in the middle of a file. -/
def Keeps (k : Counter) (lines : List Line) : Prop :=
  k.spaced = true ∨ firstSpaceKeeps k.afterInstruction lines = true

theorem Keeps.step {k : Counter} {line : Line} {rest : List Line} (h : k.Keeps (line :: rest)) :
    (k.step line).Keeps rest := by
  unfold Keeps at h ⊢
  rcases h with hspaced | hfirst
  · refine .inl ?_
    cases hkind : line.kind with
    | _ => simp [Counter.step, hkind, hspaced]
  · cases hkind : line.kind with
    | space => exact .inl (by simp [Counter.step, hkind])
    | _ => exact .inr (by simpa [Counter.step, firstSpaceKeeps, hkind] using hfirst)

/-- A line that is no section directive does not move the counter back. -/
theorem Keeps.location_le {k : Counter} {line : Line} {rest : List Line}
    (h : k.Keeps (line :: rest)) (hsection : line.kind ≠ .text ∧ line.kind ≠ .data) :
    k.location ≤ (k.step line).location := by
  cases hkind : line.kind with
  | text => exact absurd hkind hsection.1
  | data => exact absurd hkind hsection.2
  | align =>
      have hround : k.location ≤ roundUp k.location (2 ^ amountOf line) :=
        le_roundUp _ (Nat.two_pow_pos _)
      simpa [Counter.step, position, extent, hkind] using hround
  | space =>
      have hstep : (k.step line).location =
          (if k.afterInstruction && !k.spaced then k.location - 4 else k.location) +
            amountOf line := by
        simp [Counter.step, position, extent, hkind]
      rw [hstep]
      -- Only the first space directive can start in front of the counter, and then it reserves a
      -- word.
      split
      · rename_i hback
        simp only [Bool.and_eq_true, Bool.not_eq_true'] at hback
        have hfour : 4 ≤ amountOf line := by
          rcases h with hspaced | hfirst
          · rw [hback.2] at hspaced
            cases hspaced
          · simpa [firstSpaceKeeps, hkind, hback.1] using hfirst
        omega
      · exact Nat.le_add_right _ _
  | reset | comment => simp [Counter.step, hkind]
  | _ => simp [Counter.step, position, hkind]

/-! ## Line after line -/

/-- No section directive stands between two lines, both given by their numbers. -/
def SameSection (lines : List Line) (first last : Int) : Prop :=
  ∀ line ∈ lines, first < line.lineno → line.lineno < last → line.kind ≠ .text ∧ line.kind ≠ .data

theorem exists_line_of_mem_spans {k : Counter} {lines : List Line} {s : Span}
    (h : s ∈ k.spans lines) :
    ∃ line ∈ lines, s.lineno = line.lineno := by
  induction lines generalizing k with
  | nil => cases h
  | cons line rest ih =>
      rcases List.mem_append.1 h with hhere | hrest
      · exact ⟨line, List.mem_cons_self, (lineSpans_within hhere).1⟩
      · rcases ih hrest with ⟨line', hline', hlineno⟩
        exact ⟨line', List.mem_cons_of_mem line hline', hlineno⟩

/-- A stretch lies behind the counter when no section directive stands in front of its line. -/
theorem Keeps.location_le_position {k : Counter} {lines : List Line} {s : Span} (h : k.Keeps lines)
    (horder : lines.Pairwise (fun a b => a.lineno < b.lineno)) (hs : s ∈ k.spans lines)
    (hsection : ∀ line ∈ lines, line.lineno < s.lineno → line.kind ≠ .text ∧ line.kind ≠ .data) :
    k.location ≤ s.position := by
  induction lines generalizing k with
  | nil => cases hs
  | cons line rest ih =>
      rcases List.mem_append.1 hs with hhere | hrest
      · exact (lineSpans_within hhere).2.1
      · rcases exists_line_of_mem_spans hrest with ⟨line', hline', hlineno⟩
        have hbefore : line.lineno < s.lineno := by
          rw [hlineno]
          exact List.rel_of_pairwise_cons horder hline'
        have hstep : k.location ≤ (k.step line).location :=
          h.location_le (hsection line List.mem_cons_self hbefore)
        have hlater : (k.step line).location ≤ s.position :=
          ih h.step horder.of_cons hrest
            (fun line' hline' => hsection line' (List.mem_cons_of_mem line hline'))
        exact Nat.le_trans hstep hlater

/-- Within a section, the stretches of a list of lines follow one another. -/
theorem Keeps.spans_pairwise {k : Counter} {lines : List Line} (h : k.Keeps lines)
    (horder : lines.Pairwise (fun a b => a.lineno < b.lineno)) :
    (k.spans lines).Pairwise
      (fun a b => SameSection lines a.lineno b.lineno → a.position + a.size ≤ b.position) := by
  induction lines generalizing k with
  | nil => exact .nil
  | cons line rest ih =>
      refine List.pairwise_append.2 ⟨?_, ?_, ?_⟩
      · refine (lineSpans_pairwise k line).imp ?_
        intro a b hpair _
        exact hpair
      · refine (ih h.step horder.of_cons).imp ?_
        intro a b hpair hsection
        exact hpair fun line' hline' => hsection line' (List.mem_cons_of_mem line hline')
      · -- The counter behind the line separates its stretches from all later ones.
        intro a ha b hb hsection
        rcases lineSpans_within ha with ⟨hlineno, -, hend⟩
        refine Nat.le_trans hend (h.step.location_le_position horder.of_cons hb ?_)
        intro line' hline' hbefore
        have hbehind : a.lineno < line'.lineno := by
          rw [hlineno]
          exact List.rel_of_pairwise_cons horder hline'
        exact hsection line' (List.mem_cons_of_mem line hline') hbehind hbefore

end Counter

/-! ## The lines of a source are numbered upwards -/

theorem Layout.lt_lineno_of_mem_numbered {n : Nat} {raws : List Bytes} {line : Line}
    (h : line ∈ Layout.numbered n raws) : (n : Int) < line.lineno := by
  induction raws generalizing n with
  | nil => cases h
  | cons raw rest ih =>
      rcases List.mem_append.1 h with hhere | hrest
      · rcases Line.sorted_of_ofTokens? (Option.mem_toList.1 hhere) with ⟨first, others, -, hsorted⟩
        rw [hsorted.lineno_eq]
        omega
      · have hrest := ih hrest
        omega

theorem Layout.numbered_pairwise (n : Nat) (raws : List Bytes) :
    (Layout.numbered n raws).Pairwise (fun a b => a.lineno < b.lineno) := by
  induction raws generalizing n with
  | nil => exact .nil
  | cons raw rest ih =>
      refine List.pairwise_append.2 ⟨?_, ih (n + 1), ?_⟩
      · cases Line.ofTokens? (tokenize raw) (n + 1 : Nat) with
        | none => exact .nil
        | some line => exact List.pairwise_singleton _ _
      · intro a ha b hb
        rcases Line.sorted_of_ofTokens? (Option.mem_toList.1 ha) with ⟨first, others, -, hsorted⟩
        rw [hsorted.lineno_eq]
        exact Layout.lt_lineno_of_mem_numbered hb

/-! ## Rows fill their stretches -/

/-- A row at the beginning of its stretch, modulo `2 ^ 32`, with two digits for each of its
bytes. -/
structure Row.Fills (span : Span) (row : Row) : Prop where
  address : row.address = UInt32.ofNat span.position
  digits : row.value.length = 2 * span.size
  lineno : row.lineno = span.lineno

theorem Row.Holds.lineno_eq {placed : Line} {address : UInt32} {digits : Nat} {row : Row}
    (h : Row.Holds placed address digits row) : row.lineno = placed.lineno := by
  rw [Row.lineno, h.source, Option.elim_some]

namespace Counter

theorem fills_elements {placed : Line} {location : Nat} {elements : List Element} {rows : List Row}
    (h : List.Forall₂ (fun e row => Row.Holds placed e.address (2 * e.size.toNat) row)
      (elementsFrom location elements) rows) :
    List.Forall₂ Row.Fills (elementSpans placed.lineno location elements) rows := by
  induction elements generalizing location rows with
  | nil =>
      cases h
      exact .nil
  | cons e rest ih =>
      cases h with
      | cons hfirst hothers =>
          exact .cons ⟨hfirst.address, hfirst.value.length, hfirst.lineno_eq⟩ (ih hothers)

/-- One line: its rows fill its stretches. -/
theorem fills_line {k : Counter} {line : Line} {trace : Trace} (h : Trace.Agrees line trace)
    (hkept : trace.kept = k.record line) :
    List.Forall₂ Row.Fills (k.lineSpans line) trace.rows := by
  cases h with
  | @instruction address row hkind hrow =>
      -- The address that the trace has kept is the one that the counter records.
      have hline : some { line with address } =
          some { line with address := UInt32.ofNat k.location } := by
        simpa [record, position, hkind] using hkept
      have haddress : address = UInt32.ofNat k.location :=
        congrArg Line.address (Option.some.inj hline)
      have hspans : k.lineSpans line = [⟨k.location, 4, line.lineno⟩] := by
        simp [lineSpans, position, hkind]
      rw [hspans]
      exact .cons ⟨hrow.address.trans haddress, hrow.value.length, hrow.lineno_eq⟩ .nil
  | @data address elements rows hkind hreserved hplaced hrows =>
      rw [(step_record_of_isData k hkind).2] at hkept
      have helements : elements = elementsFrom k.location (elementsOf line) :=
        congrArg Line.elements (Option.some.inj hkept)
      rw [lineSpans_of_isData k hkind]
      subst helements
      have hfills := fills_elements hrows
      exact hfills
  | other hkind =>
      rw [lineSpans_of_not_hasRows k hkind]
      exact .nil

/-- Line after line: the rows of a file fill the stretches that the counter gives them. -/
theorem fills_lines {k : Counter} {lines : List Line} {traces : List Trace}
    (h : List.Forall₂ Trace.Agrees lines traces) (hkept : traces.map Trace.kept = k.records lines) :
    List.Forall₂ Row.Fills (k.spans lines) (traces.map Trace.rows).flatten := by
  induction h generalizing k with
  | nil => exact .nil
  | @cons line trace lines traces hline _ ih =>
      simp only [List.map_cons, records, List.cons.injEq] at hkept
      exact List.rel_append (fills_line hline hkept.1) (ih hkept.2)

end Counter

/-! ## Rows do not overlap -/

/-- Two rows whose stretches do not wrap lie apart when their stretches do. -/
theorem Row.Fills.apart {a b : Span} {row row' : Row} (h : Row.Fills a row) (h' : Row.Fills b row')
    (ha : a.position < 2 ^ 32) (hb : b.position < 2 ^ 32)
    (hapart : a.position + a.size ≤ b.position) :
    row.address.toNat + row.value.length / 2 ≤ row'.address.toNat := by
  have hfirst : row.address.toNat = a.position := by
    rw [h.address]
    exact UInt32.toNat_ofNat_of_lt' ha
  have hlast : row'.address.toNat = b.position := by
    rw [h'.address]
    exact UInt32.toNat_ofNat_of_lt' hb
  rw [hfirst, hlast, h.digits, Nat.mul_div_cancel_left _ (by decide)]
  exact hapart

theorem pairwise_zip_of_forall₂ {α β : Type} {r : α → β → Prop} {p : α → α → Prop} {xs : List α}
    {ys : List β} (h : List.Forall₂ r xs ys) (hpairs : xs.Pairwise p) :
    (xs.zip ys).Pairwise (fun a b => r a.1 a.2 ∧ r b.1 b.2 ∧ p a.1 b.1) := by
  induction h with
  | nil => exact .nil
  | @cons x y xs ys hxy hrest ih =>
      refine .cons ?_ (ih hpairs.of_cons)
      rintro ⟨x', y'⟩ hmem
      refine ⟨hxy, List.forall₂_zip hrest hmem, ?_⟩
      exact List.rel_of_pairwise_cons hpairs (List.of_mem_zip hmem).1

/-- Rows never overwrite one another within a section. The rows of a file stand, modulo `2 ^ 32`,
where the unbounded counter puts them, and any two of them that it puts below `2 ^ 32`, with no
section directive between their lines, lie one behind the other. -/
theorem rows_never_overlap {catalog : Catalog} {file source : Bytes} {result : Assembly}
    (h : assemble catalog file source = .ok result)
    (hspace : Counter.firstSpaceKeeps false (Layout.sourceLines source) = true) :
    List.Forall₂ Row.Fills (Counter.start.spans (Layout.sourceLines source)) result.rows ∧
      ((Counter.start.spans (Layout.sourceLines source)).zip result.rows).Pairwise
        (fun (first, row) (last, row') =>
          Counter.SameSection (Layout.sourceLines source) row.lineno row'.lineno →
          first.position < 2 ^ 32 → last.position < 2 ^ 32 →
          row.address.toNat + row.value.length / 2 ≤ row'.address.toNat) := by
  rcases exists_placed_traces_of_assemble h with ⟨-, traces, last, hplaces, -, hrows, hruns⟩
  have hfills : List.Forall₂ Row.Fills (Counter.start.spans (Layout.sourceLines source))
      result.rows := by
    rw [hrows]
    exact Counter.fills_lines (forall₂_agrees_of_runs hruns) (Counter.tracks_start.records hplaces)
  have hkeeps : Counter.start.Keeps (Layout.sourceLines source) := .inr hspace
  refine ⟨hfills, (pairwise_zip_of_forall₂ hfills
    (hkeeps.spans_pairwise (Layout.numbered_pairwise 0 _))).imp ?_⟩
  rintro ⟨first, row⟩ ⟨last, row'⟩ ⟨hfirst, hlast, hapart⟩ hsection hbelow hbelow'
  refine hfirst.apart hlast hbelow hbelow' (hapart ?_)
  rw [← hfirst.lineno, ← hlast.lineno]
  exact hsection

/-- A source whose first space directive takes the place of an instruction and gives it back, with
rows of several sizes behind it and a second section at the same addresses. -/
def sampleSections : Bytes :=
  utf8
    "add r1, r2, r3\n; note\n.space 4\n.ascii \"abc\", \"\"\n.align 2\nx: .double 1\n.text\nnop\n"

theorem sampleSections_never_overlap :
    ∃ result, assemble .builtin [] sampleSections = .ok result ∧
      result.rows.map (fun row => (row.address, row.value.length)) =
        [(0, 8), (4, 6), (7, 0), (8, 16), (0, 8)] ∧
      Counter.firstSpaceKeeps false (Layout.sourceLines sampleSections) = true ∧
      List.Forall₂ Row.Fills (Counter.start.spans (Layout.sourceLines sampleSections)) result.rows ∧
      ((Counter.start.spans (Layout.sourceLines sampleSections)).zip result.rows).Pairwise
        (fun (first, row) (last, row') =>
          Counter.SameSection (Layout.sourceLines sampleSections) row.lineno row'.lineno →
          first.position < 2 ^ 32 → last.position < 2 ^ 32 →
          row.address.toNat + row.value.length / 2 ≤ row'.address.toNat) := by
  have hassemble : (assemble .builtin [] sampleSections).map
      (fun result => result.rows.map (fun row => (row.address, row.value.length))) =
      .ok [(0, 8), (4, 6), (7, 0), (8, 16), (0, 8)] := by
    decide +kernel
  have hspace : Counter.firstSpaceKeeps false (Layout.sourceLines sampleSections) = true := by
    decide +kernel
  rcases map_eq_ok.1 hassemble with ⟨result, hresult, hrows⟩
  exact ⟨result, hresult, hrows, hspace, rows_never_overlap hresult hspace⟩

/-- Without the condition rows do overlap: a first space directive of no bytes puts two instructions
at one address. -/
example : (assemble .builtin [] (utf8 "nop\n.space 0\nnop\n")).map
    (fun result => result.rows.map Row.address) = .ok [0, 0] := by
  decide +kernel

end Dlx
