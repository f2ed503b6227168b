import Dlx.Proofs.Placement
import Dlx.Proofs.Retelling
import Dlx.Proofs.Text

/-!
# Lines with other numbers

Lines that are inserted into a file give other numbers to the lines behind them, and so to rows and
errors. Nothing else in either pass looks at the number of a line.

* `insertedBefore`: by how much a line number grows
* `Layout.runUntil_renumber`: the first pass behind the place of the insertion, with the numbers
  that have grown
* `Layout.Pass.renumber_of_runUntil`: what the pass has placed in front of it keeps its numbers
* `assemble_renumber`: a file whose lines are laid out with other numbers is assembled with other
  numbers
-/

namespace Dlx

section Definitions

variable (position count : Nat)

/-- How many of `count` lines that are inserted behind the first `position` lines of a file stand in
front of a line. -/
def insertedBefore (lineno : Int) : Nat :=
  if lineno ≤ position then 0 else count

/-- A line of the file with the inserted lines. -/
def Line.renumber (line : Line) : Line :=
  { line with lineno := line.lineno + insertedBefore position count line.lineno }

/-- A program of the file with the inserted lines. -/
def Program.renumber (program : Program) : Program :=
  { program with lines := program.lines.map (Line.renumber position count) }

/-- An error of the file with the inserted lines. -/
def AssemblyError.renumber : AssemblyError → AssemblyError
  | .at diagnostic =>
    .at { diagnostic with
      lineno := diagnostic.lineno + insertedBefore position count diagnostic.lineno }
  | .overlong file lineno => .overlong file (lineno + insertedBefore position count lineno)

/-- The assembled file with the inserted lines: other line numbers in the program and in the sources
of the rows. -/
def Assembly.renumber (result : Assembly) : Assembly where
  program := result.program.renumber position count
  symbols := result.symbols
  rows := result.rows.map (Row.retell (Line.renumber position count))

/-- The first pass over the file with the inserted lines, when it has gone past them. -/
def Layout.Pass.renumber (p : Pass) : Pass where
  cursor := p.cursor
  lineno := p.lineno + count
  placed := p.placed.map (Line.renumber position count)

/-- The line that an error is about. -/
def AssemblyError.lineno : AssemblyError → Int
  | .at diagnostic => diagnostic.lineno
  | .overlong _ lineno => lineno

end Definitions

variable {position count : Nat}

theorem insertedBefore_of_le {lineno : Int} (h : lineno ≤ position) :
    insertedBefore position count lineno = 0 :=
  if_pos h

theorem insertedBefore_of_lt {lineno : Int} (h : position < lineno) :
    insertedBefore position count lineno = count :=
  if_neg (Int.not_le.2 h)

theorem Line.retelling_renumber (line : Line) : line.Retelling (Line.renumber position count) :=
  ⟨rfl, rfl, rfl, fun _ _ => rfl⟩

theorem Line.renumber_of_le {line : Line} (h : line.lineno ≤ position) :
    line.renumber position count = line := by
  simp [renumber, insertedBefore_of_le h]

theorem Line.map_renumber_of_le {lines : List Line} (h : ∀ line ∈ lines, line.lineno ≤ position) :
    lines.map (Line.renumber position count) = lines :=
  calc
    lines.map (Line.renumber position count) = lines.map id :=
      List.map_congr_left fun line hline => renumber_of_le (h line hline)
    _ = lines := List.map_id lines

theorem AssemblyError.renumber_of_le {e : AssemblyError} (h : e.lineno ≤ position) :
    e.renumber position count = e := by
  rcases e with ⟨diagnostic⟩ | ⟨file, lineno⟩
  · have hzero : insertedBefore position count diagnostic.lineno = 0 := insertedBefore_of_le h
    simp [renumber, hzero]
  · have hzero : insertedBefore position count lineno = 0 := insertedBefore_of_le h
    simp [renumber, hzero]

/-! ## The first pass behind the insertion -/

theorem Line.ofTokens?_renumber {lineno : Nat} (h : position ≤ lineno) (tokens : List Bytes) :
    ofTokens? tokens (lineno + count + 1 : Nat) =
      (ofTokens? tokens (lineno + 1 : Nat)).map (Line.renumber position count) := by
  rw [ofTokens?_lineno tokens (lineno + 1 : Nat)]
  cases hline : ofTokens? tokens (lineno + 1 : Nat) with
  | none => rfl
  | some line =>
      rcases sorted_of_ofTokens? hline with ⟨first, others, -, hsorted⟩
      have hlineno : line.lineno = lineno + 1 := hsorted.lineno_eq
      have hbefore : insertedBefore position count line.lineno = count :=
        insertedBefore_of_lt (by omega)
      have hnumber : ((lineno + count + 1 : Nat) : Int) = line.lineno + count := by
        rw [hlineno]
        push_cast
        omega
      rw [Option.map_some, Option.map_some, renumber, hbefore, hnumber]

namespace Layout

theorem Pass.renumber_keep (p : Pass) (placement : Cursor × Option Line) :
    (p.keep placement).renumber position count =
      (p.renumber position count).keep
        (placement.1, placement.2.map (Line.renumber position count)) := by
  have hlineno : p.lineno + 1 + count = p.lineno + count + 1 := Nat.add_right_comm p.lineno 1 count
  cases hkept : placement.2 with
  | none => simp [keep, renumber, hkept, hlineno]
  | some line => simp [keep, renumber, hkept, hlineno]

/-- One line behind the insertion: it is placed as before, and only its number has grown. -/
theorem Pass.step_renumber (file : Bytes) {p : Pass} (h : position ≤ p.lineno) (raw : Bytes) :
    ((p.step file raw).map (renumber position count)).mapError
        (AssemblyError.renumber position count) =
      (p.renumber position count).step file raw := by
  have hlineno : (p.renumber position count).lineno = p.lineno + count := rfl
  have hcursor : (p.renumber position count).cursor = p.cursor := rfl
  unfold step
  rw [hlineno, hcursor, Line.ofTokens?_renumber h]
  cases Line.ofTokens? (tokenize raw) (p.lineno + 1 : Nat) with
  | none =>
      have hcount : p.lineno + 1 + count = p.lineno + count + 1 :=
        Nat.add_right_comm p.lineno 1 count
      simp [Except.map, Except.mapError, renumber, hcount]
  | some line =>
      rw [Option.map_some]
      dsimp only
      rw [p.cursor.place_retelling line.retelling_renumber (.inr rfl)]
      cases p.cursor.place line with
      | error fault => rfl
      | ok placement => exact congrArg Except.ok (p.renumber_keep placement)

theorem Pass.lineno_of_step {file raw : Bytes} {p p' : Pass} (h : p.step file raw = .ok p') :
    p'.lineno = p.lineno + 1 := by
  unfold step at h
  split at h
  · cases h
    rfl
  · split at h
    · cases h
      rfl
    · cases h

theorem le_lineno_of_step {file raw : Bytes} {p p' : Pass} (h : position ≤ p.lineno)
    (hstep : p.step file raw = .ok p') : position ≤ p'.lineno := by
  rw [Pass.lineno_of_step hstep]
  omega

theorem runUntil_renumber (file : Bytes) {p : Pass} (h : position ≤ p.lineno) (raws : List Bytes) :
    (runUntil (Pass.step file) p raws).map (Pass.renumber position count)
        (Option.map (AssemblyError.renumber position count)) =
      runUntil (Pass.step file) (p.renumber position count) raws :=
  runUntil_views_of_invariant (fun _ _ _ => le_lineno_of_step)
    (fun raw _ _ hp => Pass.step_renumber file hp raw) h

theorem outcome_renumber (file : Bytes) (overlong : Bool) {ended : Pass × Option AssemblyError}
    (h : position ≤ ended.1.lineno) :
    outcome file overlong
        (ended.map (Pass.renumber position count)
          (Option.map (AssemblyError.renumber position count))) =
      ((outcome file overlong ended).map (Program.renumber position count)).mapError
        (AssemblyError.renumber position count) := by
  rcases ended with ⟨pass, error⟩
  cases error with
  | some error => rfl
  | none =>
      cases overlong with
      | false => simp [outcome, Program.renumber, Pass.renumber, Except.map, Except.mapError]
      | true =>
          -- the line that is too long is the one behind the last that was read
          have hbefore : insertedBefore position count (pass.lineno + 1 : Nat) = count :=
            insertedBefore_of_lt (by push_cast; dsimp only at h; omega)
          have hnumber : pass.lineno + count + 1 = pass.lineno + 1 + count :=
            Nat.add_right_comm _ _ _
          simp only [outcome, Prod.map, Option.map_none, Pass.renumber, ↓reduceIte, Except.map,
            Except.mapError, AssemblyError.renumber, hbefore, hnumber]

/-! ## The first pass in front of the insertion -/

theorem lineno_of_runUntil {file : Bytes} {raws : List Bytes} {p pass : Pass}
    (h : runUntil (Pass.step file) p raws = (pass, none)) :
    pass.lineno = p.lineno + raws.length := by
  induction raws generalizing p with
  | nil =>
      cases h
      rfl
  | cons raw raws ih =>
      rw [runUntil] at h
      cases hstep : p.step file raw with
      | error e =>
          rw [hstep] at h
          cases h
      | ok p' =>
          rw [hstep] at h
          rw [ih h, Pass.lineno_of_step hstep, List.length_cons]
          omega

theorem Pass.lineno_of_step_error {file raw : Bytes} {p : Pass} {e : AssemblyError}
    (h : p.step file raw = .error e) :
    e.lineno = (p.lineno + 1 : Nat) := by
  unfold step at h
  split at h
  · cases h
  · rename_i line hline
    rcases Line.sorted_of_ofTokens? hline with ⟨first, others, -, hsorted⟩
    split at h
    · cases h
    · cases h
      exact hsorted.lineno_eq

/-- A pass stops at one of the lines that it is given. -/
theorem lineno_le_of_runUntil {file : Bytes} {raws : List Bytes} {p pass : Pass} {e : AssemblyError}
    (h : runUntil (Pass.step file) p raws = (pass, some e)) :
    e.lineno ≤ (p.lineno + raws.length : Nat) := by
  rcases runUntil_eq_error.1 h with ⟨front, raw, back, rfl, hfront, hraw⟩
  rw [Pass.lineno_of_step_error hraw, lineno_of_runUntil hfront, List.length_append,
    List.length_cons]
  push_cast
  omega

/-- The lines that a pass has placed are among those that it has counted. -/
def Pass.Counted (p : Pass) : Prop :=
  ∀ line ∈ p.placed, line.lineno ≤ p.lineno

theorem Pass.Counted.step {file raw : Bytes} {p p' : Pass} (h : p.Counted)
    (hstep : p.step file raw = .ok p') :
    p'.Counted := by
  have hnext : ∀ line ∈ p.placed, line.lineno ≤ (p.lineno + 1 : Nat) := by
    intro line hline
    have hle := h line hline
    push_cast
    omega
  unfold Pass.step at hstep
  split at hstep
  · cases hstep
    exact hnext
  · rename_i line hline
    split at hstep
    · rename_i placement hplace
      cases hstep
      intro line' hline'
      rcases List.mem_append.1 hline' with hkept | hold
      · -- Wherever a line is placed, it keeps the number under which it was read.
        rcases Line.sorted_of_ofTokens? hline with ⟨first, others, -, hsorted⟩
        have hsame := (Cursor.placed_of_place hplace).lineno_eq (Option.mem_toList.1 hkept)
        rw [hsame, hsorted.lineno_eq]
        exact Int.le_refl _
      · exact hnext line' hold
    · cases hstep

theorem Pass.counted_of_runUntil {file : Bytes} {raws : List Bytes} {pass : Pass}
    (h : runUntil (Pass.step file) .start raws = (pass, none)) : pass.Counted := by
  have hstart : Pass.start.Counted := fun line hline => by cases hline
  have hrun : (runUntil (Pass.step file) .start raws).1.Counted :=
    runUntil_invariant (fun _ _ _ => Pass.Counted.step) hstart raws
  rwa [h] at hrun

/-- Behind the lines in front of an insertion, going past the inserted lines changes the count and
nothing else. -/
theorem Pass.renumber_of_runUntil {file : Bytes} {raws : List Bytes} {pass : Pass}
    (h : runUntil (Pass.step file) .start raws = (pass, none)) :
    pass.renumber raws.length count = { pass with lineno := pass.lineno + count } := by
  have hlineno : pass.lineno = raws.length := by
    simpa [Pass.start] using lineno_of_runUntil h
  have hplaced : pass.placed.map (Line.renumber raws.length count) = pass.placed :=
    Line.map_renumber_of_le fun line hline => hlineno ▸ counted_of_runUntil h line hline
  rw [Pass.renumber, hplaced]

/-! ## Files that are not read to the end -/

section Unfit

variable {source source' raw : Bytes} {front back back' : List Bytes}

theorem layout_of_unfit (file : Bytes) (hsource : Lines.pieces source = front ++ back)
    (hraw : raw ∈ front) (h : Lines.fits raw = false) :
    layout file source =
      outcome file true (runUntil (Pass.step file) .start (Lines.ofPieces front).lines) := by
  have hoverlong : (Lines.ofPieces front).overlong = true :=
    List.any_eq_true.2 ⟨raw, hraw, by simp [h]⟩
  rw [layout_eq_outcome, Lines.ofBytes_eq_ofPieces, hsource, Lines.ofPieces_append_of_unfit hraw h,
    hoverlong]

/-- A file with a line in `front` that does not fit ends with an error about one of the lines in
`front`. -/
theorem exists_error_of_unfit (file : Bytes) (hsource : Lines.pieces source = front ++ back)
    (hraw : raw ∈ front) (h : Lines.fits raw = false) :
    ∃ e : AssemblyError, layout file source = .error e ∧ e.lineno ≤ front.length := by
  -- The reader stops in front of the line that does not fit, so the pass sees fewer lines than
  -- `front` has.
  have hshort : (Lines.ofPieces front).lines.length < front.length := by
    rw [Lines.ofPieces, List.length_map]
    refine Nat.lt_of_le_of_ne (List.takeWhile_prefix Lines.fits).length_le fun hlength => ?_
    have hall :=
      List.takeWhile_eq_self_iff.1 ((List.takeWhile_prefix Lines.fits).eq_of_length hlength)
    simp [hall raw hraw] at h
  rw [layout_of_unfit file hsource hraw h]
  rcases hrun : runUntil (Pass.step file) .start (Lines.ofPieces front).lines with ⟨pass, error⟩
  cases error with
  | some e =>
      have hle := lineno_le_of_runUntil hrun
      refine ⟨e, rfl, ?_⟩
      simp only [Pass.start] at hle
      omega
  | none =>
      have hlineno := lineno_of_runUntil hrun
      refine ⟨.overlong file (pass.lineno + 1), rfl, ?_⟩
      simp only [Pass.start] at hlineno
      simp only [AssemblyError.lineno]
      omega

/-- What stands behind a line that does not fit has no part in the outcome. -/
theorem layout_eq_of_unfit (file : Bytes) (hsource : Lines.pieces source = front ++ back)
    (hsource' : Lines.pieces source' = front ++ back') (hraw : raw ∈ front)
    (h : Lines.fits raw = false) :
    layout file source' = layout file source :=
  (layout_of_unfit file hsource' hraw h).trans (layout_of_unfit file hsource hraw h).symm

end Unfit

end Layout

/-! ## The second pass -/

theorem encodeLineOf_renumber (file : Bytes) (symbols : SymbolTable) (catalog : Catalog)
    (line : Line) :
    Corresponds (fun e e' => e' = AssemblyError.renumber position count e)
      (fun rows rows' => rows' = rows.map (Row.retell (Line.renumber position count)))
      (encodeLineOf file symbols catalog line)
        (encodeLineOf file symbols catalog (line.renumber position count)) := by
  apply (encodeLine_retelling symbols line.retelling_renumber catalog).mapError
  intro fault fault' hsame
  rw [hsame rfl]
  rfl

theorem encode_renumber (program : Program) (symbols : SymbolTable) (catalog : Catalog) :
    encode (program.renumber position count) symbols catalog =
      ((encode program symbols catalog).map
        (List.map (Row.retell (Line.renumber position count)))).mapError
        (AssemblyError.renumber position count) := by
  apply Corresponds.eq_map
  have hlines : List.Forall₂
      (fun line line' => Corresponds (fun e e' => e' = AssemblyError.renumber position count e)
        (fun rows rows' => rows' = rows.map (Row.retell (Line.renumber position count)))
        (encodeLineOf program.file symbols catalog line)
          (encodeLineOf program.file symbols catalog line'))
      program.lines (program.lines.map (Line.renumber position count)) := by
    rw [List.forall₂_map_right_iff]
    exact List.forall₂_same.2 fun line _ => encodeLineOf_renumber program.file symbols catalog line
  apply (Corresponds.mapM hlines).map
  intro rows rows' hrows
  rw [eq_map_of_forall₂ hrows, List.map_flatten]

theorem SymbolTable.ofLines_renumber (lines : List Line) :
    SymbolTable.ofLines (lines.map (Line.renumber position count)) = SymbolTable.ofLines lines := by
  rw [SymbolTable.ofLines, List.foldl_map]
  rfl

/-- A file whose lines are laid out with other numbers is assembled with other numbers. -/
theorem assemble_renumber (catalog : Catalog) {file source source' : Bytes}
    (h : layout file source' = ((layout file source).map (Program.renumber position count)).mapError
      (AssemblyError.renumber position count)) :
    assemble catalog file source' =
      ((assemble catalog file source).map (Assembly.renumber position count)).mapError
        (AssemblyError.renumber position count) := by
  rw [assemble, assemble, h]
  cases layout file source with
  | error e => rfl
  | ok program =>
      have hsymbols : SymbolTable.ofLines (program.renumber position count).lines =
          SymbolTable.ofLines program.lines :=
        SymbolTable.ofLines_renumber program.lines
      simp only [Except.map, Except.mapError, ok_bind]
      rw [hsymbols, encode_renumber]
      cases encode program (SymbolTable.ofLines program.lines) catalog with
      | error e => rfl
      | ok rows => rfl

end Dlx
