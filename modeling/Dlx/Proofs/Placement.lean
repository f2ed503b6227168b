import Dlx.Assembly.Layout
import Dlx.Proofs.Outcome
import Mathlib.Data.List.ReduceOption

/-!
# Placing the lines of a file

The first pass as a relation between the lines of a source and the lines of its program:

* `Layout.sourceLines`: the lines of a source that hold a token, with their numbers, as they are
  before anything is placed
* `Line.Sorted`: what the tokens of a line can make of it
* `Cursor.Placed`: everything that placing one line can do
* `Cursor.Places`: placing line after line, with what is kept of each
* `exists_places_of_layout`: a file that is laid out was placed line after line from the start

Everything about addresses is proved from `Cursor.Placed`, and no proof unfolds `Cursor.place`
again.
-/

namespace Dlx

/-! ## The lines of a source -/

namespace Layout

/-- The lines of a text that hold a token, counted from `lineno + 1` on. -/
def numbered : (lineno : Nat) → List Bytes → List Line
  | _, [] => []
  | lineno, raw :: rest =>
    (Line.ofTokens? (tokenize raw) (lineno + 1 : Nat)).toList ++ numbered (lineno + 1) rest

/-- The lines of a source that hold a token. -/
def sourceLines (source : Bytes) : List Line :=
  numbered 0 (Lines.ofBytes source).lines

theorem exists_tokens_of_mem_numbered {lineno : Nat} {raws : List Bytes} {line : Line}
    (h : line ∈ numbered lineno raws) :
    ∃ raw ∈ raws, ∃ n : Nat, Line.ofTokens? (tokenize raw) n = some line := by
  induction raws generalizing lineno with
  | nil => cases h
  | cons raw rest ih =>
      rcases List.mem_append.1 h with hhere | hrest
      · exact ⟨raw, List.mem_cons_self, lineno + 1, Option.mem_toList.1 hhere⟩
      · rcases ih hrest with ⟨raw', hraw', hline⟩
        exact ⟨raw', List.mem_cons_of_mem raw hraw', hline⟩

end Layout

/-! ## The tokens of a line -/

namespace Line

theorem splitLabels_append (tokens : List Bytes) :
    (splitLabels tokens).1 ++ (splitLabels tokens).2 = tokens := by
  unfold splitLabels
  split
  · split
    · split
      · rfl
      · rfl
    · rfl
  · split
    · rfl
    · rfl
  · rfl

/-- What sorting the tokens of a line can give. -/
inductive Sorted (lineno : Int) (first : Bytes) (others : List Bytes) : Line → Prop where
  | reset (htokens : first :: others = [utf8 ";"]) :
      Sorted lineno first others { kind := .reset, tokens := first :: others, lineno }
  | comment (hfirst : isComment first = true) :
      Sorted lineno first others { kind := .comment, tokens := first :: others, lineno }
  | label {labels rest : List Bytes} (hfirst : isComment first = false)
      (hsplit : splitLabels (first :: others) = (labels, rest))
      (hrest : ∀ token ∈ rest.head?, isComment token = true) :
      Sorted lineno first others { kind := .label, tokens := first :: others, labels, lineno }
  | statement {labels after : List Bytes} {mnemonic : Bytes} (hfirst : isComment first = false)
      (hsplit : splitLabels (first :: others) = (labels, mnemonic :: after))
      (hmnemonic : isComment mnemonic = false) :
      Sorted lineno first others
        { kind := .ofMnemonic mnemonic
          tokens := first :: others
          labels, mnemonic
          operands := after.takeWhile (fun token => !isComment token)
          lineno }

theorem sorted_of_ofTokens? {tokens : List Bytes} {lineno : Int} {line : Line}
    (h : ofTokens? tokens lineno = some line) :
    ∃ first others, tokens = first :: others ∧ Sorted lineno first others line := by
  cases tokens with
  | nil => cases h
  | cons first others =>
      refine ⟨first, others, rfl, ?_⟩
      simp only [ofTokens?] at h
      split at h
      · rename_i htokens
        cases h
        exact .reset htokens
      · split at h
        · rename_i hfirst
          cases h
          exact .comment hfirst
        · rename_i hfirst
          have hfirst : isComment first = false := Bool.eq_false_iff.2 hfirst
          -- What follows the labels decides between a line of labels alone and a statement.
          rcases hsplit : splitLabels (first :: others) with ⟨labels, rest⟩
          simp only [hsplit] at h
          cases rest with
          | nil =>
              cases h
              exact .label hfirst hsplit (by simp)
          | cons mnemonic after =>
              by_cases hmnemonic : isComment mnemonic = true
              · simp only [hmnemonic, ↓reduceIte] at h
                cases h
                exact .label hfirst hsplit (by simpa using hmnemonic)
              · simp only [hmnemonic, Bool.false_eq_true, ↓reduceIte] at h
                cases h
                exact .statement hfirst hsplit (Bool.eq_false_iff.2 hmnemonic)

/-- The number of a line decides nothing else about it. -/
theorem ofTokens?_lineno (tokens : List Bytes) (lineno lineno' : Int) :
    ofTokens? tokens lineno' = (ofTokens? tokens lineno).map
      (fun line => { line with lineno := lineno' }) := by
  cases tokens with
  | nil => rfl
  | cons first others =>
      simp only [ofTokens?]
      by_cases hreset : first :: others = [utf8 ";"]
      · simp only [if_pos hreset, Option.map_some]
      · by_cases hfirst : isComment first = true
        · simp only [if_neg hreset, if_pos hfirst, Option.map_some]
        · simp only [if_neg hreset, if_neg hfirst]
          cases (splitLabels (first :: others)).2 with
          | nil => rfl
          | cons mnemonic after =>
              by_cases hmnemonic : isComment mnemonic = true
              · simp only [if_pos hmnemonic, Option.map_some]
              · simp only [if_neg hmnemonic, Option.map_some]

section Sorted

variable {lineno : Int} {first : Bytes} {others : List Bytes} {line : Line}

theorem Sorted.tokens (h : Sorted lineno first others line) : line.tokens = first :: others := by
  cases h with
  | reset | comment | label | statement => rfl

theorem Sorted.lineno_eq (h : Sorted lineno first others line) : line.lineno = lineno := by
  cases h with
  | reset | comment | label | statement => rfl

/-- Nothing has an address or elements before it is placed. -/
theorem Sorted.unplaced (h : Sorted lineno first others line) :
    line = { line with address := 0, elements := [] } := by
  cases h with
  | reset | comment | label | statement => rfl

theorem Sorted.elements_eq_nil (h : Sorted lineno first others line) : line.elements = [] := by
  rw [h.unplaced]

theorem Sorted.operands_subset (h : Sorted lineno first others line) :
    line.operands ⊆ first :: others := by
  cases h with
  | reset | comment | label => exact List.nil_subset _
  | @statement labels after mnemonic hfirst hsplit hmnemonic =>
      have happend : labels ++ mnemonic :: after = first :: others := by
        simpa [hsplit] using splitLabels_append (first :: others)
      intro operand hoperand
      have hafter : operand ∈ after := (List.takeWhile_subset _) hoperand
      rw [← happend]
      exact List.mem_append_right labels (List.mem_cons_of_mem mnemonic hafter)

end Sorted

end Line

/-! ## One line -/

namespace Cursor

theorem eq_of_mem_placed {line line' : Line} {address : UInt32} (h : line' ∈ placed line address) :
    line' = { line with address } :=
  (Option.some.inj h).symm

theorem eq_of_mem_placedLabel {line line' : Line} {address : UInt32}
    (h : line' ∈ placedLabel line address) : line' = { line with address } := by
  unfold placedLabel at h
  split at h
  · cases h
  · exact eq_of_mem_placed h

/-- What placing a line can do: the cursor behind the line, and the line as it is kept. -/
inductive Placed (c : Cursor) (line : Line) : Cursor → Option Line → Prop where
  | quiet (hkind : line.kind = .reset ∨ line.kind = .comment) : Placed c line c none
  | label (hkind : line.kind = .label) : Placed c line (c.moveTo c.next) (placed line c.next)
  | origin {address : UInt32} (hkind : line.kind = .text ∨ line.kind = .data)
      (haddress : sectionAddress line.operands = .ok address) :
      Placed c line (c.moveTo address) (placedLabel line address)
  | align {size : UInt32} (hkind : line.kind = .align) (hsize : boundary line.operands = .ok size) :
      Placed c line (c.moveTo (alignUp c.next size)) (placedLabel line (alignUp c.next size))
  | space {size : Nat} (hkind : line.kind = .space) (hsize : amount line.operands = .ok size) :
      Placed c line ⟨c.spaceStart + size.toUInt32, 0, true⟩ (placed line c.spaceStart)
  | instruction (hkind : line.kind = .instruction) :
      Placed c line ⟨c.next, 4, c.spaced⟩ (placed line c.next)
  | data {elements : List Element} (hkind : line.kind.isData = true)
      (helements : Directive.elements line = .ok elements) :
      Placed c line (c.moveTo (Directive.endOf c.next elements))
        (placed { line with elements := Directive.placeFrom c.next elements } c.next)

theorem placed_of_place {c c' : Cursor} {line : Line} {kept : Option Line}
    (h : c.place line = .ok (c', kept)) : Placed c line c' kept := by
  -- The line is taken apart so that the match on its kind reduces.
  rcases line with ⟨kind, tokens, labels, mnemonic, operands, address, lineno, elements⟩
  cases kind with
  | reset =>
      cases h
      exact .quiet (.inl rfl)
  | comment =>
      cases h
      exact .quiet (.inr rfl)
  | label =>
      cases h
      exact .label rfl
  | instruction =>
      cases h
      exact .instruction rfl
  | text =>
      rcases bind_eq_ok.1 h with ⟨origin, horigin, h⟩
      cases pure_eq_ok.1 h
      exact .origin (.inl rfl) horigin
  | data =>
      rcases bind_eq_ok.1 h with ⟨origin, horigin, h⟩
      cases pure_eq_ok.1 h
      exact .origin (.inr rfl) horigin
  | align =>
      rcases bind_eq_ok.1 h with ⟨size, hsize, h⟩
      cases pure_eq_ok.1 h
      exact .align rfl hsize
  | space =>
      rcases bind_eq_ok.1 h with ⟨size, hsize, h⟩
      cases pure_eq_ok.1 h
      exact .space rfl hsize
  | ascii | asciiz | double | float | word =>
      rcases bind_eq_ok.1 h with ⟨values, hvalues, h⟩
      cases pure_eq_ok.1 h
      exact .data rfl hvalues

/-- A line is kept as it is, with an address and with elements. -/
theorem Placed.same {c c' : Cursor} {line line' : Line} {kept : Option Line}
    (h : Placed c line c' kept) (hkept : line' ∈ kept) :
    ∃ address elements, line' = { line with address, elements } := by
  cases h with
  | quiet hkind => cases hkept
  | label hkind | space hkind hsize | instruction hkind =>
      exact ⟨_, line.elements, eq_of_mem_placed hkept⟩
  | @data elements hkind helements =>
      exact ⟨c.next, Directive.placeFrom c.next elements, eq_of_mem_placed hkept⟩
  | origin hkind haddress | align hkind hsize =>
      exact ⟨_, line.elements, eq_of_mem_placedLabel hkept⟩

theorem Placed.lineno_eq {c c' : Cursor} {line line' : Line} {kept : Option Line}
    (h : Placed c line c' kept) (hkept : line' ∈ kept) : line'.lineno = line.lineno := by
  rcases h.same hkept with ⟨address, elements, rfl⟩
  rfl

/-! ## Line after line -/

/-- Placing lines one after the other, with what is kept of each of them. -/
inductive Places : Cursor → List Line → List (Option Line) → Cursor → Prop where
  | nil (c : Cursor) : Places c [] [] c
  | cons {c c' last : Cursor} {line : Line} {lines : List Line} {kept : Option Line}
      {rest : List (Option Line)} (hline : Placed c line c' kept)
      (hlines : Places c' lines rest last) :
      Places c (line :: lines) (kept :: rest) last

end Cursor

/-! ## The pass -/

namespace Layout

theorem exists_places_of_runUntil {file : Bytes} {raws : List Bytes} {p pass : Pass}
    (h : runUntil (Pass.step file) p raws = (pass, none)) :
    ∃ kept, Cursor.Places p.cursor (numbered p.lineno raws) kept pass.cursor ∧
      pass.placed.reverse = p.placed.reverse ++ kept.reduceOption := by
  induction raws generalizing p with
  | nil =>
      cases h
      exact ⟨[], .nil _, by rw [List.reduceOption_nil, List.append_nil]⟩
  | cons raw rest ih =>
      unfold runUntil Pass.step at h
      unfold numbered
      cases hline : Line.ofTokens? (tokenize raw) (p.lineno + 1 : Nat) with
      | none =>
          -- A line without tokens is counted and leaves no trace.
          simp only [hline] at h
          rcases ih h with ⟨kept, hplaces, hplaced⟩
          exact ⟨kept, hplaces, hplaced⟩
      | some line =>
          simp only [hline] at h
          cases hplace : p.cursor.place line with
          | error fault =>
              simp only [hplace] at h
              cases h
          | ok placement =>
              rcases placement with ⟨c', kept⟩
              simp only [hplace] at h
              rcases ih h with ⟨others, hplaces, hplaced⟩
              refine ⟨kept :: others, .cons (Cursor.placed_of_place hplace) hplaces, ?_⟩
              rw [hplaced]
              cases kept with
              | none => simp [Pass.keep, List.reduceOption_cons_of_none]
              | some line' => simp [Pass.keep, List.reduceOption_cons_of_some]

/-- What the first pass makes of its last state and its error. -/
def outcome (file : Bytes) (overlong : Bool) (ended : Pass × Option AssemblyError) :
    Except AssemblyError Program :=
  match ended.2 with
  | some error => .error error
  | none =>
      if overlong then .error (.overlong file (ended.1.lineno + 1))
      else .ok ⟨file, ended.1.placed.reverse⟩

theorem layout_eq_outcome (file source : Bytes) :
    layout file source =
      outcome file (Lines.ofBytes source).overlong
        (runUntil (Pass.step file) .start (Lines.ofBytes source).lines) := by
  simp only [layout, run, outcome]
  rcases runUntil (Pass.step file) .start (Lines.ofBytes source).lines with ⟨pass, error⟩
  cases error with
  | some error => rfl
  | none =>
      cases (Lines.ofBytes source).overlong with
      | true => rfl
      | false => rfl

end Layout

/-- A file is laid out when its lines can all be read and placed. -/
theorem layout_eq_ok {file source : Bytes} {program : Program} :
    layout file source = .ok program ↔
      ∃ pass, runUntil (Layout.Pass.step file) .start (Lines.ofBytes source).lines = (pass, none) ∧
        (Lines.ofBytes source).overlong = false ∧ program = ⟨file, pass.placed.reverse⟩ := by
  unfold layout Layout.run
  dsimp only
  rcases runUntil (Layout.Pass.step file) .start (Lines.ofBytes source).lines with ⟨pass, error⟩
  cases error with
  | some e => simp
  | none =>
      cases (Lines.ofBytes source).overlong with
      | true => simp
      | false =>
          simp only [Bool.false_eq_true, ↓reduceIte, Option.or_none, Except.ok.injEq, Prod.mk.injEq,
            and_true, true_and, exists_eq_left']
          exact eq_comm

/-- A file that is laid out was placed line after line, and its program is what was kept. -/
theorem exists_places_of_layout {file source : Bytes} {program : Program}
    (h : layout file source = .ok program) :
    ∃ kept last, Cursor.Places .start (Layout.sourceLines source) kept last ∧
      program.lines = kept.reduceOption ∧ program.file = file := by
  rcases layout_eq_ok.1 h with ⟨pass, hrun, -, rfl⟩
  rcases Layout.exists_places_of_runUntil hrun with ⟨kept, hplaces, hplaced⟩
  exact ⟨kept, pass.cursor, hplaces, hplaced, rfl⟩

end Dlx
