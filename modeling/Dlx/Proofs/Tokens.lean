import Dlx.Proofs.Text
import Dlx.Source.Line
import Dlx.Source.Token

/-!
# The tokens of a line

The scanner goes along a line once and never looks back, so that what it makes of a line can be read
off at every place between two tokens.

* `IsInner`: the bytes that make up a token where there are no quotes
* `tokenize_apart`: two tokens with separators between them
* `exists_prefix_tokenize`: the first tokens of a line are the tokens of a front of the line
* `exists_suffix_tokenize`: the tokens behind the first one are the tokens of an end of the line
-/

namespace Dlx

/-! ## Bytes inside a token -/

/-- A byte inside a token: neither a quote nor a separator. -/
def IsInner (b : UInt8) : Prop :=
  b < 0x80 ∧ Char.ofNat b.toNat ≠ '"' ∧ Scanner.isSeparator (Char.ofNat b.toNat) = false

instance (b : UInt8) : Decidable (IsInner b) :=
  inferInstanceAs (Decidable (_ ∧ _ ∧ _))

theorem isInner_of_isAlphanumeric {b : UInt8} (h : isAlphanumeric b = true) : IsInner b := by
  have hall : ∀ b : UInt8, isAlphanumeric b = true → IsInner b := forall_byte (by decide +kernel)
  exact hall b h

theorem Scanner.foldl_inner {text : Bytes} (h : ∀ b ∈ text, IsInner b) (tokens : List (List Char))
    (word : List Char) :
    (Utf8.chars text).foldl step ⟨tokens, word, false, false⟩ =
      ⟨tokens, (Utf8.chars text).reverse ++ word, false, false⟩ := by
  rw [Utf8.chars_of_ascii fun b hb => (h b hb).1]
  induction text generalizing word with
  | nil => rfl
  | cons b rest ih =>
      rcases h b List.mem_cons_self with ⟨-, hquote, hseparator⟩
      have hstep : step ⟨tokens, word, false, false⟩ (Char.ofNat b.toNat) =
          ⟨tokens, Char.ofNat b.toNat :: word, false, false⟩ := by
        simp [step, hquote, hseparator]
      rw [List.map_cons, List.foldl_cons, hstep, ih fun x hx => h x (List.mem_cons_of_mem b hx)]
      simp

theorem Scanner.step_separator {c : Char} (h : isSeparator c = true) (tokens : List (List Char))
    (word : List Char) :
    step ⟨tokens, word, false, false⟩ c = flush ⟨tokens, word, false, false⟩ := by
  have hquote : c ≠ '"' := by
    rintro rfl
    exact absurd h (by decide)
  simp [step, hquote, h]

theorem Scanner.foldl_separators {line : List Char} (h : ∀ c ∈ line, isSeparator c = true)
    (tokens : List (List Char)) :
    line.foldl step ⟨tokens, [], false, false⟩ = ⟨tokens, [], false, false⟩ := by
  induction line with
  | nil => rfl
  | cons c line ih =>
      rcases List.forall_mem_cons.1 h with ⟨hc, hline⟩
      rw [List.foldl_cons, step_separator hc]
      exact ih hline

theorem Scanner.flush_reverse {word : List Char} (h : word ≠ []) (tokens : List (List Char)) :
    flush ⟨tokens, word.reverse, false, false⟩ = ⟨word :: tokens, [], false, false⟩ := by
  simp [flush, h]

/-- The first of some separators ends a token, and the others do nothing. -/
theorem Scanner.foldl_gap {gap word : List Char} (h : ∀ c ∈ gap, isSeparator c = true)
    (hgap : gap ≠ []) (hword : word ≠ []) (tokens : List (List Char)) :
    gap.foldl step ⟨tokens, word.reverse, false, false⟩ = ⟨word :: tokens, [], false, false⟩ := by
  cases gap with
  | nil => exact absurd rfl hgap
  | cons c gap =>
      rcases List.forall_mem_cons.1 h with ⟨hc, hothers⟩
      rw [List.foldl_cons, step_separator hc, flush_reverse hword, foldl_separators hothers]

/-- Two tokens with separators between them. -/
theorem tokenize_apart {front gap back : Bytes} (hfront : ∀ b ∈ front, IsInner b)
    (hback : ∀ b ∈ back, IsInner b)
    (hgap : ∀ b ∈ gap, b < 0x80 ∧ Scanner.isSeparator (Char.ofNat b.toNat) = true)
    (hfront' : front ≠ []) (hgap' : gap ≠ []) (hback' : back ≠ []) :
    tokenize (front ++ gap ++ back) = [front, back] := by
  have hascii : ∀ b ∈ front, b < 0x80 := fun b hb => (hfront b hb).1
  have hasciiGap : ∀ b ∈ gap, b < 0x80 := fun b hb => (hgap b hb).1
  have hasciiBack : ∀ b ∈ back, b < 0x80 := fun b hb => (hback b hb).1
  -- All of the line is in ASCII, so its characters can be told apart byte by byte.
  have hchars : Utf8.chars (front ++ gap ++ back) =
      Utf8.chars front ++ Utf8.chars gap ++ Utf8.chars back := by
    rw [Utf8.chars_of_ascii hascii, Utf8.chars_of_ascii hasciiGap, Utf8.chars_of_ascii hasciiBack,
      Utf8.chars_of_ascii]
    · simp
    · intro b hb
      simp only [List.mem_append] at hb
      rcases hb with (hb | hb) | hb
      · exact hascii b hb
      · exact hasciiGap b hb
      · exact hasciiBack b hb
  have hseparators : ∀ c ∈ Utf8.chars gap, Scanner.isSeparator c = true := by
    rw [Utf8.chars_of_ascii hasciiGap]
    intro c hc
    rcases List.mem_map.1 hc with ⟨b, hb, rfl⟩
    exact (hgap b hb).2
  have hrun : Scanner.run (Utf8.chars (front ++ gap ++ back)) =
      [Utf8.chars front, Utf8.chars back] := by
    rw [Scanner.run, hchars, List.foldl_append, List.foldl_append, Scanner.start,
      Scanner.foldl_inner hfront, List.append_nil,
      Scanner.foldl_gap hseparators (Utf8.chars_ne_nil_of_ascii hasciiGap hgap')
        (Utf8.chars_ne_nil_of_ascii hascii hfront'),
      Scanner.foldl_inner hback, List.append_nil,
      Scanner.flush_reverse (Utf8.chars_ne_nil_of_ascii hasciiBack hback')]
    rfl
  rw [tokenize, hrun, List.map_cons, List.map_cons, List.map_nil, Utf8.encode_chars_of_ascii hascii,
    Utf8.encode_chars_of_ascii hasciiBack]

/-! ## Tokens of a front of a line -/

namespace Scanner

/-- A character leaves the tokens as they are, or the last of them is the one it belongs to. -/
theorem tokens_flush_step (s : Scanner) (c : Char) :
    (s.step c).flush.tokens = s.flush.tokens ∨
      ∃ word, (s.step c).flush.tokens = word :: s.tokens := by
  unfold step
  split
  · exact .inr ⟨(soften c :: s.word).reverse, rfl⟩
  · split
    · exact .inr ⟨(c :: s.word).reverse, rfl⟩
    · split
      · refine .inl ?_
        unfold flush
        split
        · rfl
        · rfl
      · exact .inr ⟨(c :: s.word).reverse, rfl⟩

theorem tokens_suffix_flush (s : Scanner) : s.tokens <:+ s.flush.tokens := by
  unfold flush
  split
  · exact List.suffix_refl _
  · exact List.suffix_cons _ _

/-- The first tokens of a line are the tokens of a front of the line. -/
theorem exists_prefix_run (line : List Char) (count : Nat) :
    ∃ front, front <+: line ∧ run front = (run line).take count := by
  -- The induction reads the line from its start, so that a front of it is a state that the scanner
  -- went through.
  induction line using List.reverseRecOn with
  | nil => exact ⟨[], List.prefix_refl _, by simp [run, start, flush]⟩
  | append_singleton line c ih =>
      let s := line.foldl step start
      have hrun : run (line ++ [c]) = (s.step c).flush.tokens.reverse := by
        rw [run, List.foldl_append]
        rfl
      rcases ih with ⟨front, hcut, hfront⟩
      have hshort : front <+: line ++ [c] := hcut.trans (List.prefix_append line [c])
      rcases tokens_flush_step s c with hsame | ⟨word, hword⟩
      · exact ⟨front, hshort, by rw [hfront, hrun, hsame, run]⟩
      · rw [hword, List.reverse_cons] at hrun
        by_cases hcount : count ≤ s.tokens.length
        · refine ⟨front, hshort, ?_⟩
          rcases (List.reverse_prefix.2 s.tokens_suffix_flush) with ⟨others, hothers⟩
          have hlength : count ≤ s.tokens.reverse.length := by rwa [List.length_reverse]
          rw [hfront, hrun, List.take_append_of_le_length hlength, run, ← hothers,
            List.take_append_of_le_length hlength]
        · refine ⟨line ++ [c], List.prefix_refl _, ?_⟩
          have hall : (run (line ++ [c])).length ≤ count := by
            rw [hrun, List.length_append, List.length_reverse, List.length_singleton]
            omega
          rw [List.take_of_length_le hall]

end Scanner

theorem exists_prefix_tokenize (line : Bytes) (count : Nat) :
    ∃ front, front <+: line ∧ tokenize front = (tokenize line).take count := by
  rcases Scanner.exists_prefix_run (Utf8.chars line) count with ⟨front, hcut, hrun⟩
  -- The characters of the front come from the first items of the line, and these from its first
  -- bytes.
  let items := (Utf8.items line).take front.length
  have hsplit : Utf8.items line = [] ++ items ++ (Utf8.items line).drop front.length := by
    rw [List.nil_append, List.take_append_drop]
  have hitems : Utf8.items (Utf8.bytes items) = items := Utf8.items_bytes_of_append hsplit
  have hchars : Utf8.chars (Utf8.bytes items) = front := by
    rw [Utf8.chars, hitems, List.map_take]
    exact (List.prefix_iff_eq_take.1 hcut).symm
  refine ⟨Utf8.bytes items, ⟨Utf8.bytes ((Utf8.items line).drop front.length), ?_⟩, ?_⟩
  · rw [← Utf8.bytes_append, List.take_append_drop, Utf8.bytes_items]
  · rw [tokenize, hchars, hrun, List.map_take]
    rfl

/-! ## Tokens of an end of a line -/

namespace Scanner

/-- A scanner that has read other tokens before. -/
def behind (earlier : List (List Char)) (s : Scanner) : Scanner :=
  { s with tokens := s.tokens ++ earlier }

theorem flush_behind (earlier : List (List Char)) (s : Scanner) :
    (s.behind earlier).flush = s.flush.behind earlier := by
  unfold flush behind
  dsimp only
  split
  · rfl
  · rfl

theorem step_behind (earlier : List (List Char)) (s : Scanner) (c : Char) :
    (s.behind earlier).step c = (s.step c).behind earlier := by
  have hflush := flush_behind earlier s
  unfold step
  show (if s.quoted then _ else _) = _
  split
  · rfl
  · split
    · rfl
    · split
      · exact hflush
      · rfl

theorem foldl_behind (earlier : List (List Char)) (s : Scanner) (line : List Char) :
    line.foldl step (s.behind earlier) = (line.foldl step s).behind earlier := by
  induction line generalizing s with
  | nil => rfl
  | cons c line ih => rw [List.foldl_cons, step_behind, ih, List.foldl_cons]

/-- One character in front of the end of the first token: the token goes on, or it ends and the
scanner starts anew behind it. Outside quotes no backslash is pending. -/
theorem step_word {quoted escaped : Bool} (h : quoted = false → escaped = false) (word : List Char)
    (c : Char) :
    (∃ word' quoted' escaped', (quoted' = false → escaped' = false) ∧
        step ⟨[], word, quoted, escaped⟩ c = ⟨[], word', quoted', escaped'⟩) ∨
      step ⟨[], word, quoted, escaped⟩ c = start.behind [word.reverse] := by
  cases quoted with
  | true =>
      refine .inl ⟨soften c :: word, escaped || c != '"', !escaped && c = '\\', ?_, rfl⟩
      intro hclosed
      have hc : c = '"' := by simpa using (Bool.or_eq_false_iff.1 hclosed).2
      simp [hc]
  | false =>
      cases h rfl
      by_cases hquote : c = '"'
      · exact .inl ⟨c :: word, true, false, fun _ => rfl, by simp [step, hquote]⟩
      · by_cases hseparator : isSeparator c = true
        · cases word with
          | nil =>
              exact .inl ⟨[], false, false, fun _ => rfl, by simp [step, hquote, hseparator, flush]⟩
          | cons first word => exact .inr (by simp [step, hquote, hseparator, flush, behind, start])
        · exact .inl ⟨c :: word, false, false, fun _ => rfl, by simp [step, hquote, hseparator]⟩

/-- The tokens behind the first one are the tokens of an end of the line. -/
theorem exists_suffix_run (line : List Char) :
    ∃ back, back <:+ line ∧ run back = (run line).tail := by
  -- The induction is over the characters of the first token, and stops where the token ends.
  suffices hword : ∀ word quoted escaped, (quoted = false → escaped = false) →
      ∃ back, back <:+ line ∧
        run back = (line.foldl step ⟨[], word, quoted, escaped⟩).flush.tokens.reverse.tail from
    hword [] false false fun _ => rfl
  induction line with
  | nil =>
      intro word quoted escaped _
      refine ⟨[], List.suffix_refl _, ?_⟩
      cases word with
      | nil => rfl
      | cons c word => simp [run, start, flush]
  | cons c line ih =>
      intro word quoted escaped hescaped
      rcases step_word hescaped word c with ⟨word', quoted', escaped', hescaped', hstep⟩ | hstep
      · rcases ih word' quoted' escaped' hescaped' with ⟨back, hback, hrun⟩
        exact ⟨back, hback.trans (List.suffix_cons c line), by rw [hrun, List.foldl_cons, hstep]⟩
      · refine ⟨line, List.suffix_cons c line, ?_⟩
        rw [List.foldl_cons, hstep, foldl_behind, flush_behind]
        simp [behind, run]

end Scanner

theorem exists_suffix_tokenize (line : Bytes) :
    ∃ back, back <:+ line ∧ tokenize back = (tokenize line).tail := by
  rcases Scanner.exists_suffix_run (Utf8.chars line) with ⟨back, ⟨front, hcut⟩, hrun⟩
  let items := (Utf8.items line).drop front.length
  have hsplit : Utf8.items line = (Utf8.items line).take front.length ++ items ++ [] := by
    rw [List.append_nil, List.take_append_drop]
  have hitems : Utf8.items (Utf8.bytes items) = items := Utf8.items_bytes_of_append hsplit
  have hchars : Utf8.chars (Utf8.bytes items) = back := by
    rw [Utf8.chars, hitems, List.map_drop]
    change (Utf8.chars line).drop front.length = back
    rw [← hcut, List.drop_left]
  refine ⟨Utf8.bytes items, ⟨Utf8.bytes ((Utf8.items line).take front.length), ?_⟩, ?_⟩
  · rw [← Utf8.bytes_append, List.take_append_drop, Utf8.bytes_items]
  · rw [tokenize, hchars, hrun, List.map_tail]
    rfl

end Dlx
