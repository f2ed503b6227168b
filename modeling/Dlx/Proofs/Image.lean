import Dlx.Proofs.Retelling
import Mathlib.Data.List.TakeWhile

/-!
# What the assembler reads of a line

The tokens of a line are kept with it for listings and messages. What is assembled depends on less:
on the kind of the line, its mnemonic and operands, on whether anything was taken for a label, and
on the tokens that define labels. `Line.bare` leaves just this, and both passes work on bare lines
as on the lines themselves.

* `Cursor.place_bare`, `Layout.Pass.map_bare_step`: one line in the first pass
* `Layout.bareLines_eq`: the first pass, as a run over bare lines
* `lineImage?_bare`: one line in the second pass
* `image_eq_of_readAlike`: files whose lines are read alike have the same rows and the same labels
-/

namespace Dlx

/-! ## Bare lines -/

namespace Line

/-- A line without its text: of its tokens those that define a label, and of what was taken for
labels the first. -/
def bare (line : Line) : Line :=
  { line with
    tokens := SymbolTable.labelsOf line
    labels := line.labels.take 1 }

theorem isEmpty_labels_bare (line : Line) : line.bare.labels.isEmpty = line.labels.isEmpty := by
  cases hlabels : line.labels with
  | nil => simp [bare, hlabels]
  | cons label labels => simp [bare, hlabels]

theorem labelsOf_bare (line : Line) :
    SymbolTable.labelsOf line.bare = SymbolTable.labelsOf line := by
  have hlength : (SymbolTable.labelsOf line).length ≤ 2 :=
    (List.takeWhile_prefix isLabel).length_le.trans (List.length_take_le 2 line.tokens)
  show ((SymbolTable.labelsOf line).take 2).takeWhile isLabel = SymbolTable.labelsOf line
  rw [List.take_of_length_le hlength, SymbolTable.labelsOf, List.takeWhile_idem]

end Line

/-! ## The first pass -/

theorem Line.retelling_bare (line : Line) : line.Retelling Line.bare :=
  ⟨rfl, rfl, rfl, fun _ _ => rfl⟩

theorem Cursor.place_bare (c : Cursor) (line : Line) :
    c.place line.bare = (c.place line).map
      (fun placement => (placement.1, placement.2.map Line.bare)) :=
  c.place_retelling line.retelling_bare (.inr line.isEmpty_labels_bare)

/-- Whether lines of the kind reach the second pass or move the cursor. -/
def LineKind.hasEffect : LineKind → Bool
  | .reset | .comment => false
  | _ => true

theorem Cursor.place_of_hasEffect (c : Cursor) {line : Line} (h : line.kind.hasEffect = false) :
    c.place line = .ok (c, none) := by
  unfold LineKind.hasEffect at h
  unfold place
  split at h
  · rename_i hkind
    rw [hkind]
  · rename_i hkind
    rw [hkind]
  · cases h

/-- What the assembler reads of the tokens of a line. -/
def Line.effect? (tokens : List Bytes) (lineno : Int) : Option Line :=
  (ofTokens? tokens lineno).bind (fun line => if line.kind.hasEffect then some line.bare else none)

namespace Layout.Pass

/-- A pass whose lines have lost their texts. -/
def bare (p : Pass) : Pass :=
  { p with placed := p.placed.map Line.bare }

/-- A step of the pass that keeps what is read of a line only. -/
def bareStep (file : Bytes) (p : Pass) (raw : Bytes) : Except AssemblyError Pass :=
  match Line.effect? (tokenize raw) (p.lineno + 1 : Nat) with
  | none => .ok { p with lineno := p.lineno + 1 }
  | some line =>
    match p.cursor.place line with
    | .ok placement => .ok (p.keep placement)
    | .error fault => .error (.at ⟨file, line.lineno, p.cursor.next, fault⟩)

theorem bare_keep (p : Pass) (placement : Cursor × Option Line) :
    (p.keep placement).bare = p.bare.keep (placement.1, placement.2.map Line.bare) := by
  cases hkept : placement.2 with
  | none => simp [keep, bare, hkept]
  | some line => simp [keep, bare, hkept]

theorem map_bare_step (file : Bytes) (p : Pass) (raw : Bytes) :
    (p.step file raw).map bare = p.bare.bareStep file raw := by
  have hcursor : p.bare.cursor = p.cursor := rfl
  have hlineno : p.bare.lineno = p.lineno := rfl
  unfold step bareStep Line.effect?
  rw [hcursor, hlineno]
  cases Line.ofTokens? (tokenize raw) (p.lineno + 1 : Nat) with
  | none => rfl
  | some line =>
      cases heffect : line.kind.hasEffect with
      | false =>
          -- A comment is placed as a blank line is, by leaving the cursor where it stands.
          rw [Option.bind_some, heffect]
          dsimp only
          rw [p.cursor.place_of_hasEffect heffect]
          rfl
      | true =>
          rw [Option.bind_some, heffect, if_pos rfl]
          dsimp only
          rw [p.cursor.place_bare line]
          cases p.cursor.place line with
          | error fault => rfl
          | ok placement => exact congrArg Except.ok (p.bare_keep placement)

end Layout.Pass

/-- Two lines that the assembler reads alike. -/
def ReadAlike (raw raw' : Bytes) : Prop :=
  ∀ lineno, Line.effect? (tokenize raw) lineno = Line.effect? (tokenize raw') lineno

theorem ReadAlike.bareStep_eq {raw raw' : Bytes} (h : ReadAlike raw raw') (file : Bytes)
    (p : Layout.Pass) :
    p.bareStep file raw = p.bareStep file raw' := by
  unfold Layout.Pass.bareStep
  rw [h (p.lineno + 1 : Nat)]

namespace Layout

/-- The bare lines of the program of a file. -/
def bareLines (file source : Bytes) : Except AssemblyError (List Line) :=
  (layout file source).map (fun program => program.lines.map Line.bare)

theorem bareLines_eq (file source : Bytes) :
    bareLines file source =
      let last := runUntil (Pass.bareStep file) .start (Lines.ofBytes source).lines
      let overlong :=
        if (Lines.ofBytes source).overlong then some (.overlong file (last.1.lineno + 1)) else none
      (last.2.or overlong).elim (.ok last.1.placed.reverse) .error := by
  have hrun : (runUntil (Pass.step file) .start (Lines.ofBytes source).lines).map Pass.bare id =
      runUntil (Pass.bareStep file) .start (Lines.ofBytes source).lines :=
    runUntil_map (Pass.map_bare_step file) .start _
  unfold bareLines layout run
  rw [← hrun]
  dsimp only
  cases runUntil (Pass.step file) .start (Lines.ofBytes source).lines with
  | mk pass error =>
      cases error with
      | some error => rfl
      | none =>
          cases (Lines.ofBytes source).overlong with
          | true => rfl
          | false => exact congrArg Except.ok List.map_reverse

/-- Sources whose lines are read alike are laid out alike. -/
theorem bareLines_congr {source source' : Bytes} (file : Bytes)
    (hlines : List.Forall₂ ReadAlike (Lines.ofBytes source).lines (Lines.ofBytes source').lines)
    (hoverlong : (Lines.ofBytes source).overlong = (Lines.ofBytes source').overlong) :
    bareLines file source = bareLines file source' := by
  have hrun : runUntil (Pass.bareStep file) .start (Lines.ofBytes source).lines =
      runUntil (Pass.bareStep file) .start (Lines.ofBytes source').lines :=
    runUntil_congr (hlines.imp fun _ _ halike p => halike.bareStep_eq file p) _
  rw [bareLines_eq, bareLines_eq, hrun, hoverlong]

end Layout

/-! ## The second pass -/

theorem SymbolTable.ofLines_bare (lines : List Line) :
    SymbolTable.ofLines (lines.map Line.bare) = SymbolTable.ofLines lines := by
  have hadd : ∀ t line, SymbolTable.addLine t line.bare = SymbolTable.addLine t line := by
    intro t line
    rw [SymbolTable.addLine, line.labelsOf_bare]
    rfl
  rw [SymbolTable.ofLines, List.foldl_map]
  simp only [hadd]
  rfl

/-- What a row puts into memory. -/
def Row.image (row : Row) : UInt32 × Bytes :=
  (row.address, row.value)

/-- What the rows of a line put into memory. -/
def lineImage? (symbols : SymbolTable) (catalog : Catalog) (line : Line) :
    Option (List (UInt32 × Bytes)) :=
  (encodeLine symbols catalog line).toOption.map (List.map Row.image)

theorem lineImage?_bare (symbols : SymbolTable) (catalog : Catalog) (line : Line) :
    lineImage? symbols catalog line.bare = lineImage? symbols catalog line := by
  apply (encodeLine_retelling symbols line.retelling_bare catalog).toOption_map
  rintro rows _ rfl
  rw [List.map_map]
  rfl

/-- What the rows of a program put into memory, and its labels. -/
def image? (catalog : Catalog) (lines : List Line) : Option (List (UInt32 × Bytes) × SymbolTable) :=
  (lines.mapM (lineImage? (.ofLines lines) catalog)).map
    (fun rows => (rows.flatten, .ofLines lines))

theorem image?_bare (catalog : Catalog) (lines : List Line) :
    image? catalog (lines.map Line.bare) = image? catalog lines := by
  unfold image?
  rw [SymbolTable.ofLines_bare, List.mapM_map]
  simp only [Function.comp_def, lineImage?_bare]

/-- What the rows of a file put into memory, and its labels. -/
def Assembly.image (result : Assembly) : List (UInt32 × Bytes) × SymbolTable :=
  (result.rows.map Row.image, result.symbols)

theorem image_assemble (catalog : Catalog) (file source : Bytes) :
    (assemble catalog file source).toOption.map Assembly.image =
      (Layout.bareLines file source).toOption.bind (image? catalog) := by
  rw [assemble, toOption_bind, Layout.bareLines, toOption_map]
  cases (layout file source).toOption with
  | none => rfl
  | some program =>
      let symbols := SymbolTable.ofLines program.lines
      have hrows : (program.lines.mapM (encodeLineOf program.file symbols catalog)).toOption.map
          (List.map (List.map Row.image)) = program.lines.mapM (lineImage? symbols catalog) := by
        rw [map_toOption_mapM]
        simp only [encodeLineOf, toOption_mapError]
        rfl
      rw [Option.map_some, Option.bind_some, Option.bind_some, image?_bare, toOption_bind, encode,
        toOption_map, image?, ← hrows]
      cases (program.lines.mapM (encodeLineOf program.file symbols catalog)).toOption with
      | none => rfl
      | some rows => exact congrArg (fun image => some (image, symbols)) List.map_flatten

/-- Files whose lines are read alike have the same rows and the same labels. -/
theorem image_eq_of_readAlike {source source' : Bytes} (catalog : Catalog) (file : Bytes)
    (hlines : List.Forall₂ ReadAlike (Lines.ofBytes source).lines (Lines.ofBytes source').lines)
    (hoverlong : (Lines.ofBytes source).overlong = (Lines.ofBytes source').overlong) :
    (assemble catalog file source).toOption.map Assembly.image =
      (assemble catalog file source').toOption.map Assembly.image := by
  rw [image_assemble, image_assemble, Layout.bareLines_congr file hlines hoverlong]

end Dlx
