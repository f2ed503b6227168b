import Dlx.Proofs.Outcome
import Dlx.Proofs.Placement
import Mathlib.Algebra.Order.BigOperators.Group.List
import Mathlib.Algebra.Order.Group.Nat
import Mathlib.Data.List.TakeWhile

/-!
# Sizes of texts

How long the texts on the way from a source to its program can get. A line of a source is shorter
than `Lines.limit`; a stray byte becomes a character of three bytes when the line is cut into
tokens, and once more when a literal is read. All that matters later is that an element of a data
directive stays far below `2 ^ 32` bytes, so that its size is its length.
-/

namespace Dlx

/-! ## Characters -/

namespace Utf8

theorem length_encodeChar_le (c : Char) : (String.utf8EncodeChar c).length ≤ 4 := by
  rw [String.length_utf8EncodeChar]
  exact c.utf8Size_le_four

theorem length_readFrom_le (read : List Item) (skip : Nat) (text : Bytes) :
    (readFrom read skip text).length ≤ read.length + text.length := by
  induction text generalizing read skip with
  | nil => simp [readFrom]
  | cons b rest ih =>
      cases skip with
      | succ skip =>
          have hrest := ih read skip
          simp only [readFrom, List.length_cons]
          omega
      | zero =>
          unfold readFrom
          split
          · rename_i c more hhead
            have hrest := ih (.char c :: read) more
            simp only [List.length_cons] at hrest ⊢
            omega
          · have hrest := ih (.stray b :: read) 0
            simp only [List.length_cons] at hrest ⊢
            omega

/-- A text has at most as many characters as bytes. -/
theorem length_chars_le (text : Bytes) : (chars text).length ≤ text.length := by
  have hread := length_readFrom_le [] 0 text
  simpa [chars, items] using hread

theorem length_encode_le (text : List Char) : (encode text).length ≤ 4 * text.length := by
  induction text with
  | nil => simp [encode]
  | cons c rest ih =>
      have hchar := length_encodeChar_le c
      simp only [encode, List.flatMap_cons, List.length_append, List.length_cons] at ih ⊢
      omega

end Utf8

/-! ## Tokens -/

namespace Scanner

/-- The number of characters that a scanner holds. -/
def size (s : Scanner) : Nat :=
  (s.tokens.map List.length).sum + s.word.length

theorem size_flush (s : Scanner) : s.flush.size = s.size := by
  unfold flush
  split
  · rfl
  · simp only [size, List.map_cons, List.sum_cons, List.length_reverse, List.length_nil]
    omega

/-- A character adds at most itself. -/
theorem size_step_le (s : Scanner) (c : Char) : (s.step c).size ≤ s.size + 1 := by
  unfold step
  split
  · simp only [size, List.length_cons]
    omega
  · split
    · simp only [size, List.length_cons]
      omega
    · split
      · rw [size_flush]
        omega
      · simp only [size, List.length_cons]
        omega

theorem size_foldl_le (s : Scanner) (line : List Char) :
    (line.foldl step s).size ≤ s.size + line.length := by
  induction line generalizing s with
  | nil => simp
  | cons c rest ih =>
      have hstep := size_step_le s c
      have hrest := ih (s.step c)
      simp only [List.foldl_cons, List.length_cons]
      omega

theorem length_le_of_mem_run {line token : List Char} (h : token ∈ run line) :
    token.length ≤ line.length := by
  have hmem : token ∈ (line.foldl step start).flush.tokens := List.mem_reverse.1 h
  have htoken : token.length ≤ ((line.foldl step start).flush.tokens.map List.length).sum :=
    List.le_sum_of_mem (List.mem_map_of_mem hmem)
  have hsize : (line.foldl step start).flush.size ≤ line.length := by
    rw [size_flush]
    simpa [start, size] using size_foldl_le start line
  unfold size at hsize
  omega

end Scanner

theorem length_le_of_mem_tokenize {line token : Bytes} (h : token ∈ tokenize line) :
    token.length ≤ 4 * line.length := by
  rcases List.mem_map.1 h with ⟨text, htext, rfl⟩
  have hencode := Utf8.length_encode_le text
  have hrun := Scanner.length_le_of_mem_run htext
  have hchars := Utf8.length_chars_le line
  omega

/-! ## Literals -/

namespace Literal

theorem length_valueBytes?_le {value : Nat} {wide : Bool} {bytes : Bytes}
    (h : valueBytes? value wide = some bytes) : bytes.length ≤ 4 := by
  unfold valueBytes? at h
  split at h
  · split at h
    · cases h
      exact Utf8.length_encodeChar_le _
    · cases h
  · split at h
    · cases h
      simp
    · cases h

theorem length_escapeStep_le {c : Char} {state : State} {bytes : Bytes}
    (h : escapeStep c = some (state, bytes)) : bytes.length ≤ 4 := by
  unfold escapeStep at h
  split at h
  · cases h
    simp
  · split at h
    · cases h
      simp
    · cases h
      simp
    · cases h
      simp
    · rcases Option.map_eq_some_iff.1 h with ⟨d, -, hd⟩
      cases hd
      simp

/-- A character of a literal completes at most four bytes. -/
theorem length_step_le {state state' : State} {c : Char} {bytes : Bytes}
    (h : step state c = some (state', bytes)) : bytes.length ≤ 4 := by
  -- Bytes are completed by a plain character, by the letter of an escape or by its last digit.
  cases state with
  | plain =>
      simp only [step] at h
      split at h
      · cases h
        simp
      · split at h
        · cases h
          simp
        · split at h
          · cases h
          · cases h
            exact Utf8.length_encodeChar_le c
  | escape => exact length_escapeStep_le h
  | digits base left value wide =>
      rcases Option.bind_eq_some_iff.1 h with ⟨d, -, h⟩
      dsimp only at h
      split at h
      · rcases Option.bind_eq_some_iff.1 h with ⟨value, hvalue, h⟩
        cases h
        exact length_valueBytes?_le hvalue
      · cases h
        simp
  | closed => cases h

theorem length_foldlM_advance_le {read read' : State × Bytes} {body : List Char}
    (h : body.foldlM advance read = some read') :
    read'.2.length ≤ read.2.length + 4 * body.length := by
  induction body generalizing read with
  | nil =>
      cases h
      simp
  | cons c rest ih =>
      rw [List.foldlM_cons] at h
      rcases Option.bind_eq_some_iff.1 h with ⟨next, hnext, h⟩
      rcases Option.bind_eq_some_iff.1 hnext with ⟨⟨state, bytes⟩, hstep, hread⟩
      cases hread
      have hbytes := length_step_le hstep
      have hrest := ih h
      simp only [List.reverseAux_eq, List.length_append, List.length_reverse, List.length_cons]
        at hrest ⊢
      omega

/-- What a literal denotes takes at most four times its own bytes. -/
theorem length_value?_le {text value : Bytes} (h : value? text = some value) :
    value.length ≤ 4 * text.length := by
  have hchars := Utf8.length_chars_le text
  unfold value? at h
  split at h
  · rename_i body hbody
    rw [hbody, List.length_cons] at hchars
    split at h
    · rename_i bytes hread
      cases h
      have hbytes := length_foldlM_advance_le hread
      simp only [List.length_nil, List.length_reverse] at hbytes ⊢
      omega
    · cases h
  · cases h

end Literal

/-! ## Lines -/

theorem Lines.length_lt_of_mem {source raw : Bytes} (h : raw ∈ (Lines.ofBytes source).lines) :
    raw.length < Lines.limit := by
  rcases List.mem_map.1 h with ⟨piece, hpiece, rfl⟩
  have hfits : piece.length < Lines.limit := by
    simpa [Lines.fits] using List.mem_takeWhile_imp hpiece
  unfold Lines.dropReturn
  split
  · rw [List.length_dropLast]
    omega
  · exact hfits

/-- A string literal in a source denotes less than `2 ^ 20` bytes. -/
theorem Layout.length_value_lt {source operand value : Bytes} {line : Line}
    (hline : line ∈ Layout.sourceLines source) (hoperand : operand ∈ line.operands)
    (hvalue : Literal.value? operand = some value) : value.length < 2 ^ 20 := by
  rcases Layout.exists_tokens_of_mem_numbered hline with ⟨raw, hraw, n, htokens⟩
  rcases Line.sorted_of_ofTokens? htokens with ⟨first, others, hsplit, hsorted⟩
  have hline : raw.length < 65536 := Lines.length_lt_of_mem hraw
  have htoken : operand.length ≤ 4 * raw.length :=
    length_le_of_mem_tokenize (hsplit ▸ hsorted.operands_subset hoperand)
  have hliteral := Literal.length_value?_le hvalue
  omega

end Dlx
