import Dlx.Isa.Builtin
import Dlx.Proofs.Image
import Dlx.Proofs.Renumbering
import Dlx.Proofs.Tokens

/-!
# Quiet lines

A line without tokens and a line whose first token starts a comment are counted and leave no other
trace, wherever they stand and whatever they say.

* `Quiet`: the lines that are counted only
* `Layout.runUntil_quiet`: the first pass goes over them
* `layout_insert_quiet`: a file with quiet lines inserted is laid out as before, with other line
  numbers
* `quiet_lines_are_transparent`: and so it is assembled
-/

namespace Dlx

/-- A physical line that fits into the reader and holds no token in front of a comment. -/
structure Quiet (raw : Bytes) : Prop where
  fits : Lines.fits raw = true
  silent : ∀ first ∈ (tokenize (Lines.dropReturn raw)).head?, isComment first = true

namespace Layout

theorem Pass.step_quiet (file : Bytes) (p : Pass) {raw : Bytes}
    (h : ∀ first ∈ (tokenize raw).head?, isComment first = true) :
    p.step file raw = .ok { p with lineno := p.lineno + 1 } := by
  unfold step
  cases htokens : tokenize raw with
  | nil => rfl
  | cons first others =>
      have hfirst : isComment first = true := h first (by simp [htokens])
      -- a lone semicolon is no comment line but a kind of its own, and is passed over like one
      by_cases hreset : first :: others = [utf8 ";"]
      · simp only [Line.ofTokens?, hreset, ↓reduceIte]
        rfl
      · simp only [Line.ofTokens?, hreset, hfirst, ↓reduceIte]
        rfl

theorem runUntil_quiet (file : Bytes) (p : Pass) {inserted : List Bytes}
    (h : ∀ raw ∈ inserted, Quiet raw) :
    runUntil (Pass.step file) p (inserted.map Lines.dropReturn) =
      ({ p with lineno := p.lineno + inserted.length }, none) := by
  induction inserted generalizing p with
  | nil => rfl
  | cons raw inserted ih =>
      rcases List.forall_mem_cons.1 h with ⟨hraw, hinserted⟩
      rw [List.map_cons, runUntil, Pass.step_quiet file p hraw.silent]
      dsimp only
      rw [ih _ hinserted, List.length_cons, Nat.add_right_comm, Nat.add_assoc]

end Layout

/-- Quiet lines in a file give other numbers to the lines behind them, and the file is laid out as
before. -/
theorem layout_insert_quiet (file : Bytes) {source source' : Bytes}
    {front inserted back : List Bytes} (hsource : Lines.pieces source = front ++ back)
    (hsource' : Lines.pieces source' = front ++ inserted ++ back)
    (hquiet : ∀ raw ∈ inserted, Quiet raw) :
    layout file source' =
      ((layout file source).map (Program.renumber front.length inserted.length)).mapError
        (AssemblyError.renumber front.length inserted.length) := by
  by_cases hfits : ∀ raw ∈ front, Lines.fits raw = true
  · have hread : Lines.ofBytes source =
        ⟨front.map Lines.dropReturn ++ (Lines.ofPieces back).lines,
          (Lines.ofPieces back).overlong⟩ := by
      rw [Lines.ofBytes_eq_ofPieces, hsource, Lines.ofPieces_append hfits]
    have hread' : Lines.ofBytes source' =
        ⟨front.map Lines.dropReturn ++
          (inserted.map Lines.dropReturn ++ (Lines.ofPieces back).lines),
          (Lines.ofPieces back).overlong⟩ := by
      rw [Lines.ofBytes_eq_ofPieces, hsource', List.append_assoc, Lines.ofPieces_append hfits,
        Lines.ofPieces_append fun raw hraw => (hquiet raw hraw).fits]
    rw [Layout.layout_eq_outcome, Layout.layout_eq_outcome, hread, hread']
    simp only [runUntil_append]
    rcases hfront : runUntil (Layout.Pass.step file) .start (front.map Lines.dropReturn) with
      ⟨pass, error⟩
    cases error with
    | some e =>
        -- an error in front of the inserted lines keeps its number
        have hle : e.lineno ≤ front.length := by
          simpa [Layout.Pass.start] using Layout.lineno_le_of_runUntil hfront
        exact congrArg Except.error (AssemblyError.renumber_of_le hle).symm
    | none =>
        have hlineno : pass.lineno = front.length := by
          simpa [Layout.Pass.start] using Layout.lineno_of_runUntil hfront
        have hbehind : ({ pass with lineno := pass.lineno + inserted.length } : Layout.Pass) =
            pass.renumber front.length inserted.length := by
          simpa using (Layout.Pass.renumber_of_runUntil hfront).symm
        simp only [Layout.runUntil_quiet file pass hquiet]
        rw [hbehind, ← Layout.runUntil_renumber file hlineno.ge]
        apply Layout.outcome_renumber
        exact runUntil_invariant (fun _ _ _ => Layout.le_lineno_of_step) hlineno.ge _
  · simp only [not_forall, Bool.not_eq_true] at hfits
    rcases hfits with ⟨raw, hraw, hunfit⟩
    -- neither file is read up to the place of the insertion
    have hsame : layout file source' = layout file source :=
      Layout.layout_eq_of_unfit file hsource
        ((List.append_assoc front inserted back) ▸ hsource') hraw hunfit
    rcases Layout.exists_error_of_unfit file hsource hraw hunfit with ⟨e, he, hle⟩
    rw [hsame, he]
    exact congrArg Except.error (AssemblyError.renumber_of_le hle).symm

/-- Quiet lines are transparent. A file with quiet lines inserted anywhere is assembled exactly when
the file itself is, with the same symbols and the same rows, or it ends with the same error; in
rows, lines of the program and errors every line number has grown by the number of lines inserted
before it, and nothing else is different. -/
theorem quiet_lines_are_transparent (catalog : Catalog) (file : Bytes) {source source' : Bytes}
    {front inserted back : List Bytes} (hsource : Lines.pieces source = front ++ back)
    (hsource' : Lines.pieces source' = front ++ inserted ++ back)
    (hquiet : ∀ raw ∈ inserted, Quiet raw) :
    assemble catalog file source' =
      ((assemble catalog file source).map (Assembly.renumber front.length inserted.length)).mapError
        (AssemblyError.renumber front.length inserted.length) :=
  assemble_renumber catalog (layout_insert_quiet file hsource hsource' hquiet)

/-- A label in front of the first space directive, the same with quiet lines between them, and a
last line. The quiet lines hold separators, an unclosed literal behind a label, and a lone
semicolon. -/
def sampleQuiet (last : Bytes) : Bytes × Bytes :=
  (utf8 "nop\nx:\n.space 8\n" ++ last,
    utf8 "nop\nx:\n , \t\n;y: \"a, .text 40\n;\n.space 8\n" ++ last)

theorem sampleQuiet_is_transparent :
    assemble .builtin [] (sampleQuiet (utf8 "j x")).2 =
        ((assemble .builtin [] (sampleQuiet (utf8 "j x")).1).map (Assembly.renumber 2 3)).mapError
          (AssemblyError.renumber 2 3) ∧
      (assemble .builtin [] (sampleQuiet (utf8 "j x")).2).toOption.map
          (fun result => (result.rows.map (fun row => (row.image, row.lineno)), result.symbols)) =
        some ([((0, utf8 "00000000"), 1), ((12, utf8 "0bfffff4"), 7)], ⟨[(utf8 "x:", 4)]⟩) ∧
      assemble .builtin [] (sampleQuiet (utf8 "add r1")).2 =
        .error (.at ⟨[], 7, 12, ⟨.malformedOperand, utf8 "add r1"⟩⟩) := by
  let inserted := [utf8 " , \t", utf8 ";y: \"a, .text 40", utf8 ";"]
  have hfits : ∀ raw ∈ inserted, Lines.fits raw = true := by decide +kernel
  have hsilent : ∀ raw ∈ inserted, ∀ first ∈ (tokenize (Lines.dropReturn raw)).head?,
      isComment first = true := by
    decide +kernel
  have hwhole : ∀ last, Lines.pieces (sampleQuiet last).1 =
      [utf8 "nop", utf8 "x:"] ++ [utf8 ".space 8", last] →
      Lines.pieces (sampleQuiet last).2 = [utf8 "nop", utf8 "x:"] ++ inserted ++
        [utf8 ".space 8", last] →
      assemble .builtin [] (sampleQuiet last).2 =
        ((assemble .builtin [] (sampleQuiet last).1).map (Assembly.renumber 2 3)).mapError
          (AssemblyError.renumber 2 3) :=
    fun last hsource hsource' => quiet_lines_are_transparent .builtin [] hsource hsource'
      fun raw hraw => ⟨hfits raw hraw, hsilent raw hraw⟩
  have herror : assemble .builtin [] (sampleQuiet (utf8 "add r1")).1 =
      .error (.at ⟨[], 4, 12, ⟨.malformedOperand, utf8 "add r1"⟩⟩) := by
    decide +kernel
  refine ⟨hwhole _ (by decide +kernel) (by decide +kernel), by decide +kernel, ?_⟩
  rw [hwhole _ (by decide +kernel) (by decide +kernel), herror]
  rfl

end Dlx
