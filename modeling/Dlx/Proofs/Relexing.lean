import Dlx.Proofs.Placement
import Dlx.Proofs.Quotation

/-!
# Reading the text of a line again

The text of a line is made of its tokens, with a blank between them, and so are the listing and the
log. Reading that text gives the tokens back. What is inside a literal has been changed on the way,
since commas and tabs are blanks now, but blanks stay as they are; and a literal that is not closed
can only be in the last token, behind which nothing is added.

* `Scanner.Rereads`: a text that the scanner takes into a token as it stands
* `Scanner.Whole`: what the scanner has read consists of such texts
* `relexing_gives_line_back`: the tokens of a line, and every line that the first pass records
-/

namespace Dlx

namespace Scanner

/-! ## Softened characters -/

theorem soften_soften (c : Char) : soften (soften c) = soften c := by
  by_cases hc : c = ',' ∨ c = '\t'
  · simp [soften, hc]
  · simp [soften, hc]

theorem soften_eq_iff {c d : Char} (h : d ≠ ',' ∧ d ≠ '\t' ∧ d ≠ ' ') : soften c = d ↔ c = d := by
  by_cases hc : c = ',' ∨ c = '\t'
  · have hsoft : soften c = ' ' := if_pos hc
    rw [hsoft]
    constructor
    · exact fun hd => absurd hd.symm h.2.2
    · rintro rfl
      rcases hc with hc | hc
      · exact absurd hc h.1
      · exact absurd hc h.2.1
  · rw [soften, if_neg hc]

/-! ## Texts that are read as they stand -/

/-- A text that the scanner takes into a token as it stands, and the flags behind it. -/
def Rereads (text : List Char) (quoted escaped : Bool) : Prop :=
  ∀ tokens word, text.foldl step ⟨tokens, word, false, false⟩ =
    ⟨tokens, text.reverse ++ word, quoted, escaped⟩

theorem rereads_nil : Rereads [] false false :=
  fun _ _ => rfl

/-- One more character: what the scanner makes of it is what it makes of the character that it puts
into the token. -/
theorem Rereads.concat {text : List Char} {s : Scanner} (h : Rereads text s.quoted s.escaped)
    {c : Char} (hc : ¬ (isSeparator c = true ∧ s.quoted = false)) :
    Rereads (text ++ [if s.quoted then soften c else c]) (s.step c).quoted (s.step c).escaped := by
  intro tokens word
  rw [List.foldl_concat, h tokens word, List.reverse_concat, List.cons_append]
  cases hquoted : s.quoted with
  | true =>
      have hquote : (soften c != '"') = (c != '"') := by
        rw [Bool.eq_iff_iff, bne_iff_ne, bne_iff_ne, Ne, Ne, soften_eq_iff (by decide)]
      have hbackslash : soften c = '\\' ↔ c = '\\' := soften_eq_iff (by decide)
      simp [step, hquoted, soften_soften, hquote, hbackslash]
  | false =>
      have hseparator : isSeparator c = false := by simpa [hquoted] using hc
      by_cases hquote : c = '"'
      · simp [step, hquoted, hquote]
      · simp [step, hquoted, hquote, hseparator]

/-- What a scanner has read consists of texts that are read as they stand. Its finished tokens leave
no flag set, since a token ends outside literals. -/
structure Whole (s : Scanner) : Prop where
  calm : s.quoted = false → s.escaped = false
  tokens : ∀ token ∈ s.tokens, token ≠ [] ∧ Rereads token false false
  word : Rereads s.word.reverse s.quoted s.escaped

theorem Whole.step {s : Scanner} (h : Whole s) (c : Char) : Whole (s.step c) := by
  by_cases hc : isSeparator c = true ∧ s.quoted = false
  · have hcalm := h.calm hc.2
    rw [step_of_separator hc.1 hc.2]
    refine ⟨fun _ => (escaped_flush s).trans hcalm, ?_, ?_⟩
    · intro token htoken
      unfold flush at htoken
      split at htoken
      · exact h.tokens token htoken
      · rename_i hword
        -- The token that ends here ends outside literals, with no backslash pending.
        rcases List.mem_cons.1 htoken with rfl | hold
        · refine ⟨by simpa using hword, ?_⟩
          have hread := h.word
          rwa [hc.2, hcalm] at hread
        · exact h.tokens token hold
    · rw [word_flush, quoted_flush, escaped_flush, hc.2, hcalm]
      exact rereads_nil
  · rcases step_of_kept hc with ⟨htokens, hword⟩
    refine ⟨?_, ?_, ?_⟩
    · cases hquoted : s.quoted with
      | true =>
          rcases flags_step_of_quoted hquoted c with ⟨hstep, hstep'⟩
          rw [hstep, hstep']
          intro hclosed
          have hquote : c = '"' := by simpa using (Bool.or_eq_false_iff.1 hclosed).2
          simp [hquote]
      | false =>
          rw [(flags_step_of_not_quoted hquoted c).2]
          exact fun _ => h.calm hquoted
    · rw [htokens]
      exact h.tokens
    · rw [hword, List.reverse_cons]
      exact h.word.concat hc

theorem whole_behindText (line : List Char) : Whole (behindText line) := by
  induction line using List.reverseRecOn with
  | nil => exact ⟨fun _ => rfl, fun token htoken => (by cases htoken), rereads_nil⟩
  | append_singleton line c ih =>
      rw [behindText_concat]
      exact ih.step c

/-- Only the last token can hold a literal that is not closed. -/
theorem Whole.words_eq {s : Scanner} (h : Whole s) :
    s.words = [] ∨ ∃ front last quoted escaped, s.words = front ++ [last] ∧
      (∀ token ∈ front, token ≠ [] ∧ Rereads token false false) ∧ last ≠ [] ∧
        Rereads last quoted escaped := by
  have hfront : ∀ token ∈ s.tokens.reverse, token ≠ [] ∧ Rereads token false false :=
    fun token htoken => h.tokens token (List.mem_reverse.1 htoken)
  by_cases hword : s.word = []
  · rw [words_of_gap hword]
    rcases List.eq_nil_or_concat' s.tokens.reverse with hnone | ⟨front, last, hsplit⟩
    · exact .inl hnone
    · rw [hsplit] at hfront ⊢
      refine .inr ⟨front, last, false, false, rfl,
        fun token htoken => hfront token (List.mem_append_left _ htoken), ?_⟩
      exact hfront last (by simp)
  · exact .inr ⟨s.tokens.reverse, s.word.reverse, s.quoted, s.escaped, words_of_word hword,
      hfront, by simpa using hword, h.word⟩

/-! ## Tokens with a blank between them -/

/-- A token in front of a blank is read on its own. -/
theorem run_append_blank {token : List Char} (hne : token ≠ []) (h : Rereads token false false)
    (rest : List Char) :
    run (token ++ ' ' :: rest) = token :: run rest := by
  have hblank : step ⟨[], token.reverse, false, false⟩ ' ' = start.behind [token] := by
    rw [step_separator (by decide), flush_reverse hne]
    rfl
  rw [run, List.foldl_append, start, h [] [], List.append_nil, List.foldl_cons, hblank,
    foldl_behind, flush_behind]
  simp [behind, run]

theorem run_of_rereads {token : List Char} {quoted escaped : Bool} (hne : token ≠ [])
    (h : Rereads token quoted escaped) : run token = [token] := by
  rw [run, start, h [] [], List.append_nil]
  simp [flush, hne]

theorem run_intercalate {front : List (List Char)} {last : List Char} {quoted escaped : Bool}
    (hfront : ∀ token ∈ front, token ≠ [] ∧ Rereads token false false) (hne : last ≠ [])
    (hlast : Rereads last quoted escaped) :
    run ([' '].intercalate (front ++ [last])) = front ++ [last] := by
  induction front with
  | nil =>
      rw [List.nil_append, List.intercalate_singleton]
      exact run_of_rereads hne hlast
  | cons token front ih =>
      rcases List.forall_mem_cons.1 hfront with ⟨⟨htoken, hread⟩, hothers⟩
      have hjoin : [' '].intercalate (token :: (front ++ [last])) =
          token ++ ' ' :: [' '].intercalate (front ++ [last]) := by
        rw [List.intercalate_cons_of_ne_nil (by simp)]
        simp
      rw [List.cons_append, hjoin, run_append_blank htoken hread, ih hothers]

/-- The tokens of a line, with a blank between them, are read back. -/
theorem run_intercalate_run (line : List Char) : run ([' '].intercalate (run line)) = run line := by
  have hrun : run line = (behindText line).words := rfl
  rw [hrun]
  -- Behind the last token nothing is added, so that it may leave a literal open.
  rcases (whole_behindText line).words_eq with
    hnone | ⟨front, last, quoted, escaped, hsplit, hfront, hne, hlast⟩
  · rw [hnone]
    rfl
  · rw [hsplit]
    exact run_intercalate hfront hne hlast

end Scanner

theorem Utf8.encode_intercalate (separator : List Char) (texts : List (List Char)) :
    encode (separator.intercalate texts) = (encode separator).intercalate (texts.map encode) := by
  induction texts with
  | nil => rfl
  | cons text texts ih =>
      cases texts with
      | nil => simp
      | cons next texts =>
          rw [List.intercalate_cons_cons, encode_append, encode_append, ih]
          simp only [List.map_cons, List.intercalate_cons_cons]

theorem tokenize_join_tokenize (raw : Bytes) :
    tokenize (Bytes.join (utf8 " ") (tokenize raw)) = tokenize raw := by
  have hblank : utf8 " " = Utf8.encode [' '] := by decide
  have hjoin : Bytes.join (utf8 " ") (tokenize raw) =
      Utf8.encode ([' '].intercalate (Scanner.run (Utf8.chars raw))) := by
    rw [Utf8.encode_intercalate, hblank]
    rfl
  rw [hjoin, tokenize, Utf8.chars_encode, Scanner.run_intercalate_run]
  rfl

/-! ## Lines that the first pass records -/

/-- Reading the text of a line again, under its number, gives the line back as it was before it was
placed. -/
def Line.Relexes (line : Line) : Prop :=
  Line.ofTokens? (tokenize line.text) line.lineno = some { line with address := 0, elements := [] }

theorem Line.relexes_of_placed {raw : Bytes} {lineno : Int} {line placed : Line} {c c' : Cursor}
    {kept : Option Line} (hline : Line.ofTokens? (tokenize raw) lineno = some line)
    (hplaced : Cursor.Placed c line c' kept) (hkept : placed ∈ kept) : placed.Relexes := by
  rcases Line.sorted_of_ofTokens? hline with ⟨first, others, htokens, hsorted⟩
  rcases hplaced.same hkept with ⟨address, elements, rfl⟩
  have htext : tokenize ({ line with address, elements } : Line).text = tokenize raw := by
    rw [Line.text, hsorted.tokens, ← htokens, tokenize_join_tokenize]
  rw [Line.Relexes, htext]
  calc
    Line.ofTokens? (tokenize raw) line.lineno =
      Line.ofTokens? (tokenize raw) lineno := by rw [hsorted.lineno_eq]
    _ = some line := hline
    _ = some { line with address := 0, elements := [] } := congrArg some hsorted.unplaced

theorem Layout.relexes_of_mem_run {file source : Bytes} {line : Line}
    (h : line ∈ (Layout.run file source).1) :
    line.Relexes := by
  -- Every step of the pass keeps what was recorded before it and records at most the line that it
  -- has placed.
  have hstep : ∀ (p : Pass) (raw : Bytes) (p' : Pass), (∀ line ∈ p.placed, line.Relexes) →
      p.step file raw = .ok p' →
      ∀ line ∈ p'.placed, line.Relexes := by
    intro p raw p' hp hok
    unfold Pass.step at hok
    split at hok
    · cases hok
      exact hp
    · rename_i line hline
      split at hok
      · rename_i placement hplace
        cases hok
        intro placed hplaced
        rcases List.mem_append.1 hplaced with hnew | hold
        · exact Line.relexes_of_placed hline (Cursor.placed_of_place hplace)
            (Option.mem_toList.1 hnew)
        · exact hp placed hold
      · cases hok
  have hrun :=
    runUntil_invariant hstep (s := Pass.start) (fun _ hnone => by cases hnone)
      (Lines.ofBytes source).lines
  exact hrun line (List.mem_reverse.1 h)

/-- Reading a line again gives it back: the tokens of a line are those of the text that they make
with a blank between them, and sorting the tokens of that text gives every line that the first pass
records, up to its place, whether or not the source is laid out to its end. -/
theorem relexing_gives_line_back (raw file source : Bytes) :
    tokenize (Bytes.join (utf8 " ") (tokenize raw)) = tokenize raw ∧
      ∀ line ∈ (Layout.run file source).1,
        Line.ofTokens? (tokenize line.text) line.lineno =
          some { line with address := 0, elements := [] } :=
  ⟨tokenize_join_tokenize raw, fun _ hline => Layout.relexes_of_mem_run hline⟩

/-- A line with an escaped quote and a comma in a literal, and with a literal in its comment that is
not closed. -/
def sampleLiterals : Bytes :=
  utf8 "s: .asciiz \"a,\\\"b\" ; \"open,  "

theorem sampleLiterals_reads_back :
    tokenize (utf8 "s: .asciiz \"a \\\"b\" ; \"open   ") = tokenize sampleLiterals ∧
      ∃ line ∈ (Layout.run [] sampleLiterals).1, line.operands = [utf8 "\"a \\\"b\""] ∧
        Line.ofTokens? (tokenize line.text) line.lineno =
          some { line with address := 0, elements := [] } := by
  rcases relexing_gives_line_back sampleLiterals [] sampleLiterals with ⟨htokens, hlines⟩
  have hjoin : Bytes.join (utf8 " ") (tokenize sampleLiterals) =
      utf8 "s: .asciiz \"a \\\"b\" ; \"open   " := by
    decide +kernel
  have hrun : (Layout.run [] sampleLiterals).1.map Line.operands = [[utf8 "\"a \\\"b\""]] := by
    decide +kernel
  rcases List.map_eq_singleton_iff.1 hrun with ⟨line, hline, hoperands⟩
  have hmem : line ∈ (Layout.run [] sampleLiterals).1 := by simp [hline]
  rw [hjoin] at htokens
  exact ⟨htokens, line, hmem, hoperands, hlines line hmem⟩

end Dlx
