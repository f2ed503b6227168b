import Dlx.Isa.Builtin
import Dlx.Proofs.Comments
import Dlx.Proofs.FirstError
import Dlx.Proofs.Renumbering

/-!
# Labels on lines of their own

A label in front of an instruction, a data directive or a space directive can be put on a line of
its own. The label then moves the cursor to the next slot itself, where the content would have gone
anyway; only the first space directive of a file does not go there, and is left out.

* `Cursor.place_moveTo_next`: content goes to the same place behind a label and behind the line of a
  label
* `Layout.Pass.step_split`: the first pass over a line with a label, and over its two halves
* `Program.Split`: the programs of the two sources
* `label_on_own_line`: both sources are refused, or both are assembled alike
-/

namespace Dlx

/-! ## Placing content behind a label -/

namespace Cursor

theorem next_moveTo_next (c : Cursor) : (c.moveTo c.next).next = c.next := by
  simp [moveTo, next]

/-- Content goes to the next slot, whether a label has moved the cursor there or not. -/
theorem place_moveTo_next (c : Cursor) {line : Line} (hmemory : Program.takesMemory line = true)
    (hspace : line.kind = .space → c.spaced = true) :
    (c.moveTo c.next).place line = c.place line := by
  have hnext := c.next_moveTo_next
  have hmove : ∀ address, (c.moveTo c.next).moveTo address = c.moveTo address := fun _ => rfl
  cases hkind : line.kind with
  | instruction =>
      have hspaced : (c.moveTo c.next).spaced = c.spaced := rfl
      simp only [place, hkind, hnext, hspaced]
  | ascii | asciiz | double | float | word => simp only [place, hkind, hnext, hmove]
  | space =>
      -- the first space directive of a file would go back to the last slot
      have hstart : (c.moveTo c.next).spaceStart = c.spaceStart := by
        have hspaced : (c.moveTo c.next).spaced = true := hspace hkind
        rw [spaceStart, if_pos hspaced, spaceStart, if_pos (hspace hkind), hnext]
      simp only [place, hkind, hstart]
  | reset | comment | label | text | data | align =>
      simp [Program.takesMemory, hkind, LineKind.isData] at hmemory

/-- Content is always kept, at the address of the next slot. -/
theorem Placed.kept_of_takesMemory {c c' : Cursor} {line : Line} {kept : Option Line}
    (h : Placed c line c' kept) (hmemory : Program.takesMemory line = true)
    (hspace : line.kind = .space → c.spaced = true) :
    ∃ line', kept = some line' ∧ line'.address = c.next ∧ line'.tokens = line.tokens ∧
      line'.lineno = line.lineno := by
  cases h with
  | instruction hkind => exact ⟨_, rfl, rfl, rfl, rfl⟩
  | data hkind helements => exact ⟨_, rfl, rfl, rfl, rfl⟩
  | space hkind hsize =>
      have hstart : c.spaceStart = c.next := if_pos (hspace hkind)
      exact ⟨_, rfl, hstart, rfl, rfl⟩
  | quiet hkind | origin hkind haddress =>
      rcases hkind with hkind | hkind
      · simp [Program.takesMemory, hkind, LineKind.isData] at hmemory
      · simp [Program.takesMemory, hkind, LineKind.isData] at hmemory
  | label hkind | align hkind hsize => simp [Program.takesMemory, hkind, LineKind.isData] at hmemory

theorem Placed.spaced {c c' : Cursor} {line : Line} {kept : Option Line} (h : Placed c line c' kept)
    (hspaced : c.spaced = true ∨ line.kind = .space) : c'.spaced = true := by
  cases h with
  | space hkind hsize => rfl
  | quiet hkind | origin hkind haddress =>
      rcases hkind with hkind | hkind
      · exact hspaced.resolve_right (by simp [hkind])
      · exact hspaced.resolve_right (by simp [hkind])
  | label hkind | align hkind hsize | instruction hkind =>
      exact hspaced.resolve_right (by simp [hkind])
  | data hkind helements =>
      refine hspaced.resolve_right fun hspace => ?_
      simp [hspace, LineKind.isData] at hkind

end Cursor

/-! ## The tokens of the two lines -/

namespace Line

/-- The content of a line, when its label stands on a line in front of it. -/
def behindLabel (position : Nat) (rest : List Bytes) (line : Line) : Line :=
  { line.renumber position 1 with
    tokens := rest
    labels := [] }

/-- The line of a label alone. -/
def labelAlone (label : Bytes) (address : UInt32) (lineno : Int) : Line :=
  { kind := .label, tokens := [label], labels := [label], address, lineno }

theorem retelling_behindLabel (position : Nat) (rest : List Bytes) (line : Line) :
    line.Retelling (behindLabel position rest) :=
  ⟨rfl, rfl, rfl, fun _ _ => rfl⟩

/-- Tokens that make up the content of a line of a kind: the first of them is not taken for a label,
and a line with these tokens takes memory. -/
structure IsContent (rest : List Bytes) (kind : LineKind) : Prop where
  unlabelled : ∀ next ∈ rest.head?, looksLikeLabel next = false
  line : ∃ line, ofTokens? rest 0 = some line ∧ line.kind = kind ∧ Program.takesMemory line = true

variable {label : Bytes} {rest : List Bytes} {kind : LineKind}

theorem splitLabels_of_not_label {first : Bytes} (h : looksLikeLabel first = false)
    (others : List Bytes) :
    splitLabels (first :: others) = ([], first :: others) := by
  cases others with
  | nil => simp [splitLabels, h]
  | cons second others => simp [splitLabels, h]

theorem IsContent.exists_mnemonic (h : IsContent rest kind) :
    ∃ mnemonic after, rest = mnemonic :: after ∧ isComment mnemonic = false ∧
        looksLikeLabel mnemonic = false ∧
      LineKind.ofMnemonic mnemonic = kind ∧
        (kind = .instruction ∨ kind = .space ∨ kind.isData = true) := by
  rcases h.line with ⟨line, hline, rfl, hmemory⟩
  rcases sorted_of_ofTokens? hline with ⟨first, others, rfl, hsorted⟩
  have hlooks : looksLikeLabel first = false := h.unlabelled first rfl
  have hsplit := splitLabels_of_not_label hlooks others
  cases hsorted with
  | reset htokens | comment hfirst => simp [Program.takesMemory, LineKind.isData] at hmemory
  | label hfirst hsplit' hrest => simp [Program.takesMemory, LineKind.isData] at hmemory
  | @statement labels after mnemonic hfirst hsplit' hmnemonic =>
      cases hsplit.symm.trans hsplit'
      refine ⟨first, others, rfl, hfirst, hlooks, rfl, ?_⟩
      simpa [Program.takesMemory, or_assoc] using hmemory

/-- Content is sorted alike with a label in front of it and without. -/
theorem IsContent.exists_line (h : IsContent rest kind) (hlabel : isLabel label = true)
    (position : Nat) :
    ∃ line, ofTokens? (label :: rest) (position + 1 : Nat) = some line ∧
      ofTokens? rest (position + 1 + 1 : Nat) = some (line.behindLabel position rest) ∧
        line.kind = kind ∧
      Program.takesMemory line = true := by
  rcases h.exists_mnemonic with ⟨mnemonic, after, rfl, hcomment, hlooks, hkind, hmemory⟩
  have hlabelled : splitLabels (label :: mnemonic :: after) = ([label], mnemonic :: after) := by
    simp [splitLabels, looksLikeLabel_of_isLabel hlabel, hlooks]
  have hunlabelled := splitLabels_of_not_label hlooks after
  refine ⟨_, ofTokens?_cons (isComment_of_isLabel hlabel) (mnemonic :: after) _, ?_, ?_, ?_⟩
  · have hbefore : insertedBefore position 1 (position + 1) = 1 := insertedBefore_of_lt (by omega)
    rw [ofTokens?_cons hcomment, hlabelled, hunlabelled]
    simp [ofRest, hcomment, behindLabel, renumber, hbefore]
  · simp [hlabelled, ofRest, hcomment, hkind]
  · simp only [hlabelled, ofRest, hcomment, Program.takesMemory, hkind]
    simpa [or_assoc] using hmemory

theorem ofTokens?_label (h : isLabel label = true) (lineno : Int) :
    ofTokens? [label] lineno = some (labelAlone label 0 lineno) := by
  rw [ofTokens?_cons (isComment_of_isLabel h)]
  simp [splitLabels, looksLikeLabel_of_isLabel h, ofRest, labelAlone]

end Line

/-! ## The first pass -/

namespace Layout

/-- Whether a physical line is a space directive. -/
def IsSpace (raw : Bytes) : Prop :=
  ∃ line, lineOf 0 raw = some line ∧ line.kind = .space

theorem spaced_of_step {file raw : Bytes} {p p' : Pass}
    (hstep : p.step file (Lines.dropReturn raw) = .ok p')
    (h : p.cursor.spaced = true ∨ IsSpace raw) : p'.cursor.spaced = true := by
  unfold Pass.step at hstep
  split at hstep
  · rename_i hnone
    cases hstep
    refine h.resolve_right ?_
    rintro ⟨line, hline, -⟩
    rw [lineOf, Line.ofTokens?_lineno _ (p.lineno + 1 : Nat), hnone] at hline
    cases hline
  · rename_i line hline
    split at hstep
    · rename_i placement hplace
      cases hstep
      refine (Cursor.placed_of_place hplace).spaced (h.imp_right ?_)
      rintro ⟨line', hline', hspace⟩
      rw [lineOf, Line.ofTokens?_lineno _ (p.lineno + 1 : Nat), hline] at hline'
      cases hline'
      exact hspace
    · cases hstep

theorem spaced_of_runUntil {file : Bytes} {front : List Bytes} {p pass : Pass}
    (hrun : runUntil (Pass.step file) p (front.map Lines.dropReturn) = (pass, none))
    (h : p.cursor.spaced = true ∨ ∃ raw ∈ front, IsSpace raw) : pass.cursor.spaced = true := by
  induction front generalizing p with
  | nil =>
      cases hrun
      exact h.resolve_right (by simp)
  | cons raw front ih =>
      rw [List.map_cons, runUntil] at hrun
      cases hstep : p.step file (Lines.dropReturn raw) with
      | error e =>
          rw [hstep] at hrun
          cases hrun
      | ok p' =>
          rw [hstep] at hrun
          apply ih hrun
          rcases h with hspaced | ⟨raw', hraw', hspace⟩
          · exact .inl (spaced_of_step hstep (.inl hspaced))
          · rcases List.mem_cons.1 hraw' with rfl | hmem
            · exact .inl (spaced_of_step hstep (.inr hspace))
            · exact .inr ⟨raw', hmem, hspace⟩

/-- The pass behind a line with a label, and the pass behind its two halves. -/
inductive Pass.Split (label : Bytes) (rest : List Bytes) (p : Pass) : Pass → Pass → Prop where
  | mk (cursor : Cursor) {line : Line} (htokens : line.tokens = label :: rest) :
      Split label rest p ⟨cursor, p.lineno + 1, line :: p.placed⟩
        ⟨cursor, p.lineno + 1 + 1,
          line.behindLabel p.lineno rest :: Line.labelAlone label line.address line.lineno ::
            p.placed⟩

section Step

variable {label : Bytes} {rest : List Bytes} {kind : LineKind} {raw left right : Bytes} {p : Pass}

theorem Pass.step_label (file : Bytes) (hleft : tokenize left = [label])
    (hlabel : isLabel label = true) :
    p.step file left =
      .ok ⟨p.cursor.moveTo p.cursor.next, p.lineno + 1,
        Line.labelAlone label p.cursor.next (p.lineno + 1 : Nat) :: p.placed⟩ := by
  unfold step
  rw [hleft, Line.ofTokens?_label hlabel]
  rfl

/-- The two halves of a line are placed where the line would be, or are refused with it. -/
theorem Pass.step_split (file : Bytes) (hraw : tokenize raw = label :: rest)
    (hleft : tokenize left = [label]) (hright : tokenize right = rest)
    (hlabel : isLabel label = true) (hcontent : Line.IsContent rest kind)
    (hspace : kind = .space → p.cursor.spaced = true) :
    Corresponds (fun _ _ => True) (Split label rest p) (p.step file raw)
      (p.step file left >>= fun p₁ => p₁.step file right) := by
  rcases hcontent.exists_line hlabel p.lineno with ⟨line, hline, hbehind, rfl, hmemory⟩
  rcases Line.sorted_of_ofTokens? hline with ⟨first, others, htokens, hsorted⟩
  rw [step_label file hleft hlabel, ok_bind]
  unfold step
  rw [hraw, hline, hright]
  dsimp only
  rw [hbehind]
  dsimp only
  -- The label alone moves the cursor to where it is, so the content behind it goes where the whole
  -- line would go.
  have hmemory' : Program.takesMemory (line.behindLabel p.lineno rest) = true := hmemory
  rw [p.cursor.place_moveTo_next hmemory' hspace,
    p.cursor.place_retelling (line.retelling_behindLabel p.lineno rest) (.inl hmemory)]
  cases hplace : p.cursor.place line with
  | error fault => exact .error trivial
  | ok placement =>
      rcases placement with ⟨cursor, kept⟩
      rcases (Cursor.placed_of_place hplace).kept_of_takesMemory hmemory hspace with
        ⟨line', rfl, haddress, htokens', hlineno'⟩
      have hlineno : line'.lineno = (p.lineno + 1 : Nat) := hlineno'.trans hsorted.lineno_eq
      rw [← haddress, ← hlineno]
      exact .ok (.mk cursor (by rw [htokens', hsorted.tokens, htokens]))

/-- The pass with other lines placed before. -/
def Pass.onTop (earlier : List Line) (p : Pass) : Pass :=
  { p with placed := p.placed ++ earlier }

theorem Pass.step_onTop (file : Bytes) (earlier : List Line) (p : Pass) (raw : Bytes) :
    (p.step file raw).map (onTop earlier) = (p.onTop earlier).step file raw := by
  have hlineno : (p.onTop earlier).lineno = p.lineno := rfl
  have hcursor : (p.onTop earlier).cursor = p.cursor := rfl
  unfold step
  rw [hlineno, hcursor]
  cases Line.ofTokens? (tokenize raw) (p.lineno + 1 : Nat) with
  | none => rfl
  | some line =>
      dsimp only
      cases p.cursor.place line with
      | error fault => rfl
      | ok placement => simp [Except.map, onTop, keep]

/-- The first pass goes on as a computation. -/
theorem outcome_cons (file : Bytes) (overlong : Bool) (p : Pass) (raw : Bytes) (raws : List Bytes) :
    outcome file overlong (runUntil (Pass.step file) p (raw :: raws)) =
      (p.step file raw >>= fun p' => outcome file overlong
        (runUntil (Pass.step file) p' raws)) := by
  rw [runUntil]
  cases p.step file raw with
  | error e => rfl
  | ok p' => rfl

end Step

end Layout

/-- The program of a source, and the program of the source with a line split. -/
inductive Program.Split (position : Nat) (label : Bytes) (rest : List Bytes) :
    Program → Program → Prop where
  | mk (file : Bytes) {above below : List Line} {line : Line}
      (habove : ∀ earlier ∈ above, earlier.lineno ≤ position)
      (htokens : line.tokens = label :: rest) :
      Split position label rest ⟨file, above ++ line :: below⟩
        ⟨file, above ++ Line.labelAlone label line.address line.lineno ::
            line.behindLabel position rest ::
          below.map (Line.renumber position 1)⟩

namespace Layout

variable {label : Bytes} {rest : List Bytes}

theorem outcome_split (file : Bytes) (overlong : Bool) {p q q' : Pass}
    (h : Pass.Split label rest p q q') (hcounted : p.Counted) (raws : List Bytes) :
    Corresponds (fun _ _ => True) (Program.Split p.lineno label rest)
      (outcome file overlong (runUntil (Pass.step file) q raws))
      (outcome file overlong (runUntil (Pass.step file) q' raws)) := by
  cases h with
  | @mk cursor line htokens =>
      -- Both passes go on from one state, on top of different lines and with different numbers.
      let q₀ : Pass := ⟨cursor, p.lineno + 1, []⟩
      have hq : ∀ earlier, runUntil (Pass.step file) (q₀.onTop earlier) raws =
          (runUntil (Pass.step file) q₀ raws).map (Pass.onTop earlier) id :=
        fun earlier => (runUntil_map (Pass.step_onTop file earlier) q₀ raws).symm
      have hq' : ∀ earlier,
          runUntil (Pass.step file) ((q₀.renumber p.lineno 1).onTop earlier) raws =
          ((runUntil (Pass.step file) q₀ raws).map (Pass.renumber p.lineno 1)
            (Option.map (AssemblyError.renumber p.lineno 1))).map (Pass.onTop earlier) id := by
        intro earlier
        rw [runUntil_renumber file (Nat.le_succ p.lineno)]
        exact (runUntil_map (Pass.step_onTop file earlier) _ raws).symm
      have hsplit := hq (line :: p.placed)
      have hsplit' :=
        hq' (line.behindLabel p.lineno rest :: Line.labelAlone label line.address line.lineno ::
          p.placed)
      change Corresponds _ _ (outcome file overlong (runUntil (Pass.step file) (q₀.onTop _) raws))
        (outcome file overlong (runUntil (Pass.step file) ((q₀.renumber p.lineno 1).onTop _) raws))
      rw [hsplit, hsplit']
      rcases runUntil (Pass.step file) q₀ raws with ⟨pass, error⟩
      cases error with
      | some e => exact .error trivial
      | none =>
          cases overlong with
          | true => exact .error trivial
          | false =>
              have hprogram := @Program.Split.mk p.lineno label rest file p.placed.reverse
                pass.placed.reverse line
                (fun earlier hearlier => hcounted earlier (List.mem_reverse.1 hearlier)) htokens
              refine .ok ?_
              simpa [Pass.onTop, Pass.renumber] using hprogram

end Layout

/-- Two physical lines that hold the label of a line and its other tokens. -/
structure Halves (label : Bytes) (rest : List Bytes) (left right : Bytes) : Prop where
  left_fits : Lines.fits left = true
  right_fits : Lines.fits right = true
  left_tokens : tokenize (Lines.dropReturn left) = [label]
  right_tokens : tokenize (Lines.dropReturn right) = rest

section Sources

variable {source source' raw left right label : Bytes} {front back rest : List Bytes}
  {kind : LineKind}

theorem layout_split (file : Bytes) (hsource : Lines.pieces source = front ++ raw :: back)
    (hsource' : Lines.pieces source' = front ++ left :: right :: back)
    (hfits : Lines.fits raw = true) (htokens : tokenize (Lines.dropReturn raw) = label :: rest)
    (hhalves : Halves label rest left right) (hlabel : isLabel label = true)
    (hcontent : Line.IsContent rest kind)
    (hspace : kind = .space → ∃ earlier ∈ front, Layout.IsSpace earlier) :
    Corresponds (fun _ _ => True) (Program.Split front.length label rest) (layout file source)
      (layout file source') := by
  by_cases hfront : ∀ raw ∈ front, Lines.fits raw = true
  · have hread : Lines.ofBytes source =
        ⟨front.map Lines.dropReturn ++ Lines.dropReturn raw :: (Lines.ofPieces back).lines,
          (Lines.ofPieces back).overlong⟩ := by
      have hall : ∀ piece ∈ front ++ [raw], Lines.fits piece = true := by
        simpa [or_imp, forall_and, hfits] using hfront
      rw [Lines.ofBytes_eq_ofPieces, hsource, List.append_cons, Lines.ofPieces_append hall]
      simp
    have hread' : Lines.ofBytes source' =
        ⟨front.map Lines.dropReturn ++ Lines.dropReturn left :: Lines.dropReturn right ::
          (Lines.ofPieces back).lines, (Lines.ofPieces back).overlong⟩ := by
      have hall : ∀ piece ∈ front ++ [left] ++ [right], Lines.fits piece = true := by
        simpa [or_imp, forall_and, hhalves.left_fits, hhalves.right_fits] using hfront
      rw [Lines.ofBytes_eq_ofPieces, hsource', List.append_cons, List.append_cons,
        Lines.ofPieces_append hall]
      simp
    rw [Layout.layout_eq_outcome, Layout.layout_eq_outcome, hread, hread']
    simp only [runUntil_append]
    rcases hrun : runUntil (Layout.Pass.step file) .start (front.map Lines.dropReturn) with
      ⟨pass, error⟩
    cases error with
    | some e => exact .error trivial
    | none =>
        have hlineno : pass.lineno = front.length := by
          simpa [Layout.Pass.start] using Layout.lineno_of_runUntil hrun
        have hspaced : kind = .space → pass.cursor.spaced = true :=
          fun hkind => Layout.spaced_of_runUntil hrun (.inr (hspace hkind))
        dsimp only
        rw [Layout.outcome_cons, Layout.outcome_cons, ← hlineno]
        simp only [Layout.outcome_cons]
        rw [← bind_assoc]
        apply (Layout.Pass.step_split file htokens hhalves.left_tokens hhalves.right_tokens hlabel
          hcontent hspaced).bind
        intro q q' _ hsplit
        exact Layout.outcome_split file _ hsplit (Layout.Pass.counted_of_runUntil hrun) _
  · simp only [not_forall, Bool.not_eq_true] at hfront
    rcases hfront with ⟨long, hlong, hunfit⟩
    -- neither file is read up to the line
    rcases Layout.exists_error_of_unfit file hsource hlong hunfit with ⟨e, he, -⟩
    rcases Layout.exists_error_of_unfit file hsource' hlong hunfit with ⟨e', he', -⟩
    rw [he, he']
    exact .error trivial

end Sources

/-! ## The second pass -/

/-- A row, and the row that stands for it when lines are inserted: the same address and value, and
another line number. -/
structure Row.Retold (position count : Nat) (row row' : Row) : Prop where
  image : row'.image = row.image
  lineno : row'.lineno = row.lineno + insertedBefore position count row.lineno

/-- An assembled file, and the file assembled with lines inserted: the same symbols, and row by row
the same addresses and values. -/
structure Assembly.Retold (position count : Nat) (result result' : Assembly) : Prop where
  symbols : result'.symbols = result.symbols
  rows : List.Forall₂ (Row.Retold position count) result.rows result'.rows

section SecondPass

variable {position : Nat} {label : Bytes} {rest : List Bytes} {program program' : Program}

theorem Row.retold_retell {f : Line → Line}
    (hf : ∀ line, (f line).lineno = line.lineno + insertedBefore position 1 line.lineno)
    (row : Row) :
    Row.Retold position 1 row (row.retell f) := by
  refine ⟨rfl, ?_⟩
  rcases row with ⟨address, content, source⟩
  cases source with
  | some line => exact hf line
  | none =>
      -- a row without a line counts as line zero
      have hzero : insertedBefore position 1 0 = 0 :=
        insertedBefore_of_le (Int.natCast_nonneg position)
      simp [Row.lineno, Row.retell, hzero]

theorem encodeLineOf_retold (file : Bytes) (symbols : SymbolTable) (catalog : Catalog)
    {f : Line → Line} {line : Line} (h : line.Retelling f)
    (hf : ∀ line, (f line).lineno = line.lineno + insertedBefore position 1 line.lineno) :
    Corresponds (fun _ _ => True) (List.Forall₂ (Row.Retold position 1))
      (encodeLineOf file symbols catalog line) (encodeLineOf file symbols catalog (f line)) := by
  have hrows : Corresponds (line.SameFault f) (List.Forall₂ (Row.Retold position 1))
      (encodeLine symbols catalog line) (encodeLine symbols catalog (f line)) := by
    apply (encodeLine_retelling symbols h catalog).imp fun _ _ hsame => hsame
    rintro rows _ rfl
    rw [List.forall₂_map_right_iff]
    exact List.forall₂_same.2 fun row _ => row.retold_retell hf
  exact hrows.mapError fun _ _ _ => trivial

/-- A label alone has no rows, and the content behind it has the rows that it had before. -/
theorem encode_split (h : Program.Split position label rest program program')
    (symbols : SymbolTable) (catalog : Catalog) :
    Corresponds (fun _ _ => True) (List.Forall₂ (Row.Retold position 1))
      (encode program symbols catalog) (encode program' symbols catalog) := by
  rcases h with @⟨file, above, below, line, habove, htokens⟩
  have halone : encodeLineOf file symbols catalog (Line.labelAlone label line.address line.lineno) =
      .ok [] := rfl
  have hrenumber : ∀ lines : List Line, List.Forall₂
      (fun line line' => Corresponds (fun _ _ => True) (List.Forall₂ (Row.Retold position 1))
        (encodeLineOf file symbols catalog line) (encodeLineOf file symbols catalog line'))
      lines (lines.map (Line.renumber position 1)) := by
    intro lines
    rw [List.forall₂_map_right_iff]
    exact List.forall₂_same.2 fun line _ =>
      encodeLineOf_retold file symbols catalog line.retelling_renumber fun _ => rfl
  have hline :=
    encodeLineOf_retold file symbols catalog (line.retelling_behindLabel position rest) fun _ => rfl
  have hlines :=
    Corresponds.mapM (List.rel_append (hrenumber above) (.cons hline (hrenumber below)))
  rw [Line.map_renumber_of_le habove] at hlines
  -- The label alone adds no rows, so the lines correspond one by one without it.
  rw [encode, encode, flatten_mapM_insert halone]
  apply hlines.map
  intro groups groups' hgroups
  exact List.rel_flatten hgroups

theorem SymbolTable.ofLines_split (h : Program.Split position label rest program program')
    (hlabel : isLabel label = true) (hrest : ∀ next ∈ rest.head?, isLabel next = false) :
    SymbolTable.ofLines program'.lines = SymbolTable.ofLines program.lines := by
  rcases h with @⟨file, above, below, line, habove, htokens⟩
  have hnone : (rest.take 2).takeWhile isLabel = [] := by
    cases rest with
    | nil => rfl
    | cons next others => simp [hrest next rfl]
  have hone : ((label :: rest).take 2).takeWhile isLabel = [label] := by
    cases rest with
    | nil => simp [hlabel]
    | cons next others => simp [hlabel, hrest next rfl]
  have hline : ∀ t : SymbolTable, t.addLine line = t.insert label line.address := by
    intro t
    rw [addLine, labelsOf, htokens, hone]
    rfl
  have halone : ∀ t : SymbolTable,
      t.addLine (Line.labelAlone label line.address line.lineno) = t.insert label line.address := by
    intro t
    simp [addLine, labelsOf, Line.labelAlone, hlabel]
  have hbehind : ∀ t : SymbolTable, t.addLine (line.behindLabel position rest) = t := by
    intro t
    rw [addLine, labelsOf, Line.behindLabel, hnone]
    rfl
  -- The two lines add the label that the one line added, at the same address, and the lines below
  -- them are only renumbered.
  simp only [ofLines, List.foldl_append, List.foldl_cons, hline, halone, hbehind, List.foldl_map]
  rfl

theorem assemble_split (catalog : Catalog) {file source source' : Bytes}
    (h : Corresponds (fun _ _ => True) (Program.Split position label rest) (layout file source)
      (layout file source'))
    (hlabel : isLabel label = true) (hrest : ∀ next ∈ rest.head?, isLabel next = false) :
    Corresponds (fun _ _ => True) (Assembly.Retold position 1) (assemble catalog file source)
      (assemble catalog file source') := by
  rw [assemble, assemble]
  apply h.bind
  intro program program' _ hsplit
  have hsymbols := SymbolTable.ofLines_split hsplit hlabel hrest
  rw [hsymbols]
  apply (encode_split hsplit (SymbolTable.ofLines program.lines) catalog).bind
  intro rows rows' _ hrows
  exact .ok ⟨rfl, hrows⟩

end SecondPass

/-! ## Splitting a line -/

section Splitting

variable {source raw label : Bytes} {front back rest : List Bytes} {kind : LineKind}

/-- A front of a line that holds its label and an end of it that holds the rest fit into the reader,
since the line does. -/
theorem exists_halves (hfits : Lines.fits raw = true)
    (htokens : tokenize (Lines.dropReturn raw) = label :: rest) (hrest : rest ≠ []) :
    ∃ left right, Halves label rest left right ∧ Lines.dropReturn left <+: Lines.dropReturn raw ∧
      Lines.dropReturn right <:+ Lines.dropReturn raw := by
  rcases exists_prefix_tokenize (Lines.dropReturn raw) 1 with ⟨left, hleft, hlabel⟩
  rcases exists_suffix_tokenize (Lines.dropReturn raw) with ⟨right, hright, hothers⟩
  rw [htokens, List.take_succ_cons, List.take_zero] at hlabel
  rw [htokens, List.tail_cons] at hothers
  have hshorter : left.length < (Lines.dropReturn raw).length := by
    refine Nat.lt_of_le_of_ne hleft.length_le fun hlength => ?_
    rw [hleft.eq_of_length hlength, htokens] at hlabel
    exact hrest (List.cons.inj hlabel).2
  have hshorter' : right.length < (Lines.dropReturn raw).length := by
    refine Nat.lt_of_le_of_ne hright.length_le fun hlength => ?_
    rw [hright.eq_of_length hlength, htokens] at hothers
    exact List.cons_ne_self label rest hothers
  -- a carriage return more keeps one that a half may end in from being dropped
  have hreturn : ∀ text : Bytes, Lines.dropReturn (text ++ [0x0D]) = text := by
    intro text
    simp [Lines.dropReturn]
  have hlimit : ∀ text : Bytes, text.length < (Lines.dropReturn raw).length →
      Lines.fits (text ++ [0x0D]) = true := by
    intro text htext
    have hraw : raw.length < Lines.limit := by simpa [Lines.fits] using hfits
    have hwhole := (Lines.dropReturn_isPrefix raw).length_le
    simp only [Lines.fits, List.length_append, List.length_singleton, decide_eq_true_eq]
    omega
  refine ⟨left ++ [0x0D], right ++ [0x0D], ⟨hlimit left hshorter, hlimit right hshorter', ?_, ?_⟩,
    ?_, ?_⟩
  · rw [hreturn, hlabel]
  · rw [hreturn, hothers]
  · rwa [hreturn]
  · rwa [hreturn]

/-- Every line that holds a label and more can be split. -/
theorem exists_split (hsource : Lines.pieces source = front ++ raw :: back)
    (hfits : Lines.fits raw = true) (htokens : tokenize (Lines.dropReturn raw) = label :: rest)
    (hrest : rest ≠ []) :
    ∃ source' left right, Lines.pieces source' = front ++ left :: right :: back ∧
        Halves label rest left right ∧
      Lines.dropReturn left <+: Lines.dropReturn raw ∧
        Lines.dropReturn right <:+ Lines.dropReturn raw := by
  rcases exists_halves hfits htokens hrest with ⟨left, right, hhalves, hleft, hright⟩
  have hold : ∀ piece ∈ front ++ raw :: back, (0x0A : UInt8) ∉ piece := by
    intro piece hpiece
    rw [← hsource] at hpiece
    exact Lines.not_mem_of_mem_pieces hpiece
  -- A half has the bytes of the line and a return, and none of them is a newline.
  have hhalf : ∀ half, Lines.dropReturn half ⊆ Lines.dropReturn raw → (0x0A : UInt8) ∉ half := by
    intro half hsubset hmem
    rcases Lines.mem_dropReturn_or hmem with hmem | hreturn
    · exact hold raw (by simp) ((Lines.dropReturn_isPrefix raw).subset (hsubset hmem))
    · exact absurd hreturn (by decide)
  have hnew : ∀ piece ∈ front ++ left :: right :: back, (0x0A : UInt8) ∉ piece := by
    intro piece hpiece
    simp only [List.mem_append, List.mem_cons] at hpiece
    rcases hpiece with hpiece | rfl | rfl | hpiece
    · exact hold piece (by simp [hpiece])
    · exact hhalf piece hleft.subset
    · exact hhalf piece hright.subset
    · exact hold piece (by simp [hpiece])
  rcases Lines.exists_pieces hnew with ⟨source', hsource'⟩
  exact ⟨source', left, right, hsource', hhalves, hleft, hright⟩

/-- A label on a line of its own is the same as a label in front of its content. Every line that
fits into the reader and holds a label and content behind it can be split, and however this is done
both sources are refused, or both are assembled with the same symbols and, row by row, the same
addresses and values; from the content on, the line numbers of the rows have grown by one. The
content is an instruction, a data directive, or a space directive behind another one. -/
theorem label_on_own_line (catalog : Catalog) (file : Bytes)
    (hsource : Lines.pieces source = front ++ raw :: back) (hfits : Lines.fits raw = true)
    (htokens : tokenize (Lines.dropReturn raw) = label :: rest) (hlabel : isLabel label = true)
    (hcontent : Line.IsContent rest kind)
    (hspace : kind = .space → ∃ earlier ∈ front, Layout.IsSpace earlier) :
    (∃ source' left right, Lines.pieces source' = front ++ left :: right :: back ∧
        Halves label rest left right ∧
      Lines.dropReturn left <+: Lines.dropReturn raw ∧
        Lines.dropReturn right <:+ Lines.dropReturn raw) ∧
    ∀ source' left right, Lines.pieces source' = front ++ left :: right :: back →
        Halves label rest left right →
      Corresponds (fun _ _ => True) (Assembly.Retold front.length 1) (assemble catalog file source)
        (assemble catalog file source') := by
  constructor
  · rcases hcontent.exists_mnemonic with ⟨mnemonic, after, rfl, -⟩
    exact exists_split hsource hfits htokens (List.cons_ne_nil mnemonic after)
  · intro source' left right hsource' hhalves
    apply assemble_split catalog
      (layout_split file hsource hsource' hfits htokens hhalves hlabel hcontent hspace) hlabel
    intro next hnext
    refine Bool.eq_false_iff.2 fun hnextLabel => ?_
    have hlooks := looksLikeLabel_of_isLabel hnextLabel
    rw [hcontent.unlabelled next hnext] at hlooks
    cases hlooks

/-- A source with a label in front of its second space directive, and the same source with that line
split. -/
def sampleOwnLine : Bytes × Bytes :=
  (utf8 "nop\n.space 4\nnop\nx: .space 8 ;room\nlw r1, x(r0)\n",
    utf8 "nop\n.space 4\nnop\nx:\n.space 8 ;room\nlw r1, x(r0)\n")

theorem sampleOwnLine_is_alike :
    Corresponds (fun _ _ => True) (Assembly.Retold 3 1) (assemble .builtin [] sampleOwnLine.1)
        (assemble .builtin [] sampleOwnLine.2) ∧
      (assemble .builtin [] sampleOwnLine.2).toOption.map
          (fun result => (result.rows.map (fun row => (row.image, row.lineno)), result.symbols)) =
        some ([((0, utf8 "00000000"), 1), ((4, utf8 "00000000"), 3), ((16, utf8 "8c010008"), 6)],
          ⟨[(utf8 "x:", 8)]⟩) := by
  have htokens : tokenize (Lines.dropReturn (utf8 "x: .space 8 ;room")) =
      utf8 "x:" :: [utf8 ".space", utf8 "8", utf8 ";room"] := by
    decide +kernel
  have hcontent : Line.IsContent [utf8 ".space", utf8 "8", utf8 ";room"] .space :=
    ⟨by decide +kernel, _, rfl, by decide +kernel, by decide +kernel⟩
  have hearlier : Layout.IsSpace (utf8 ".space 4") := ⟨_, rfl, by decide +kernel⟩
  have hhalves : Halves (utf8 "x:") [utf8 ".space", utf8 "8", utf8 ";room"] (utf8 "x:")
      (utf8 ".space 8 ;room") :=
    ⟨by decide +kernel, by decide +kernel, by decide +kernel, by decide +kernel⟩
  have hsource : Lines.pieces sampleOwnLine.1 =
      [utf8 "nop", utf8 ".space 4", utf8 "nop"] ++ utf8 "x: .space 8 ;room" ::
        [utf8 "lw r1, x(r0)"] := by
    decide +kernel
  have hboth := label_on_own_line .builtin [] hsource (by decide +kernel) htokens
    (by decide +kernel) hcontent fun _ => ⟨_, by simp, hearlier⟩
  exact ⟨hboth.2 _ _ _ (by decide +kernel) hhalves, by decide +kernel⟩

end Splitting

/-! ## A line that is too long -/

/-- A label and an instruction with blanks between them. -/
def spacedLine (blanks : Nat) : Bytes :=
  utf8 "x:" ++ List.replicate blanks 0x20 ++ utf8 "nop"

theorem dropReturn_spacedLine (blanks : Nat) :
    Lines.dropReturn (spacedLine blanks) = spacedLine blanks := by
  have hlast : (spacedLine blanks).getLast? = some 0x70 := by
    have hname : utf8 "nop" = utf8 "no" ++ [0x70] := by decide +kernel
    rw [spacedLine, hname, ← List.append_assoc, List.getLast?_concat]
  simp [Lines.dropReturn, hlast]

theorem pieces_spacedLine (blanks : Nat) :
    Lines.pieces (spacedLine blanks) = [spacedLine blanks] := by
  have hlabel : (0x0A : UInt8) ∉ utf8 "x:" := by decide +kernel
  have hname : (0x0A : UInt8) ∉ utf8 "nop" := by decide +kernel
  have hne : utf8 "x:" ≠ [] := by decide +kernel
  apply Lines.pieces_of_not_mem
  · simp [spacedLine, hlabel, hname, List.mem_replicate]
  · simp [spacedLine, hne]

theorem tokenize_spacedLine {blanks : Nat} (h : blanks ≠ 0) :
    tokenize (spacedLine blanks) = [utf8 "x:", utf8 "nop"] := by
  apply tokenize_apart
  · decide +kernel
  · decide +kernel
  · intro b hb
    cases List.eq_of_mem_replicate hb
    decide +kernel
  · decide +kernel
  · simpa using h
  · decide +kernel

theorem assemble_spacedLine {blanks : Nat} (h : Lines.limit ≤ blanks) (catalog : Catalog) :
    assemble catalog [] (spacedLine blanks) = .error (.overlong [] 1) := by
  have hlong : Lines.limit ≤ (spacedLine blanks).length := by
    simp only [spacedLine, List.length_append, List.length_replicate]
    omega
  have hpieces : Lines.pieces (spacedLine blanks) = [] ++ spacedLine blanks :: [] :=
    pieces_spacedLine blanks
  exact assemble_of_layout_error (Layout.layout_of_overlong [] hpieces (by simp) hlong)

/-- A line that is too long for the reader is refused, though its two halves are not. -/
theorem longLine_refused :
    Lines.pieces (spacedLine 70000) = [spacedLine 70000] ∧
      tokenize (Lines.dropReturn (spacedLine 70000)) = [utf8 "x:", utf8 "nop"] ∧
      assemble .builtin [] (spacedLine 70000) = .error (.overlong [] 1) ∧
      Lines.pieces (utf8 "x:\nnop\n") = [utf8 "x:", utf8 "nop"] ∧
      (assemble .builtin [] (utf8 "x:\nnop\n")).toOption.map Assembly.image =
        some ([(0, utf8 "00000000")], ⟨[(utf8 "x:", 0)]⟩) := by
  refine ⟨pieces_spacedLine _, ?_,
    assemble_spacedLine (by decide) _, by decide +kernel, by decide +kernel⟩
  rw [dropReturn_spacedLine, tokenize_spacedLine (by decide)]

end Dlx
