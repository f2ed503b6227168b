import Dlx.Proofs.Outcome
import Dlx.Text.Blank
import Dlx.Text.Lines
import Mathlib.Data.List.DropRight
import Mathlib.Data.List.TakeWhile

/-!
# Cutting, reading and trimming text

A text is cut at marks: at its newlines, or at the first of some byte.

* `Bytes.split_append_mark`: the pieces of two texts with a mark between them
* `Bytes.join_split` and `Bytes.split_join`: the pieces give the text back, and the text gives its
  pieces back
* `Bytes.cut?_eq_some_iff`: the two sides of the first mark
* `Lines.lines_of_fits`: a text without over-long lines is read to its end

A byte string is read as a list of items, and nothing is lost on the way: the items give the bytes
back. Reading is also local. A character is recognised by its own bytes, so a stretch of the items
of a text is what reading the bytes of that stretch gives, and a text in front of an ASCII byte is
read as if it stood alone.

* `Utf8.Leads`: the four ways in which a byte starts a character
* `Utf8.bytes_items`: the items of a text give its bytes back
* `Utf8.items_bytes_of_append`: a stretch of items is read back from its own bytes
* `Utf8.items_append_ascii`: where an ASCII byte follows, a text is read on its own
* `Utf8.chars_encode`: characters are read back from their encoding
* `Blank.IsTrimmed`: no blank at either end, and `Blank.trim`, which makes a text so and leaves such
  a text alone
* `Blank.trim_eq_iff`: what trimming leaves is the text that white space is put around
-/

namespace Dlx

/-- What holds of all 256 bytes. -/
theorem forall_byte {P : UInt8 → Prop} (h : ∀ n : Fin 256, P (UInt8.ofNat n.val)) (b : UInt8) :
    P b := by
  have hb := h ⟨b.toNat, b.toNat_lt⟩
  rwa [UInt8.ofNat_toNat] at hb

/-- What is taken from a list ends where the first element is refused. -/
theorem takeWhile_append_stop {α : Type} {p : α → Bool} {front back : List α}
    (hfront : ∀ a ∈ front, p a = true) (hback : ∀ a ∈ back.head?, p a = false) :
    (front ++ back).takeWhile p = front := by
  have hstop : back.takeWhile p = [] := by
    cases back with
    | nil => rfl
    | cons a rest => simp [hback a rfl]
  rw [List.takeWhile_append_of_pos hfront, hstop, List.append_nil]

/-! ## Marks -/

namespace Bytes

variable {mark : UInt8}

theorem ne_of_not_mem {text : Bytes} (h : mark ∉ text) : ∀ b ∈ text, (b != mark) = true := by
  intro b hb
  have hne : b ≠ mark := fun heq => h (heq ▸ hb)
  simpa using hne

theorem before_of_not_mem {text : Bytes} (h : mark ∉ text) : before mark text = text :=
  List.takeWhile_eq_self_iff.2 (ne_of_not_mem h)

theorem before_append_mark {front : Bytes} (h : mark ∉ front) (back : Bytes) :
    before mark (front ++ mark :: back) = front :=
  takeWhile_append_stop (ne_of_not_mem h) (by simp)

theorem not_mem_before (mark : UInt8) (text : Bytes) : mark ∉ before mark text := by
  intro hmem
  have hne := List.mem_takeWhile_imp hmem
  simp at hne

theorem before_subset (mark : UInt8) (text : Bytes) : before mark text ⊆ text :=
  List.takeWhile_subset _

theorem cut?_eq_some_iff {text front back : Bytes} :
    cut? mark text = some (front, back) ↔ text = front ++ mark :: back ∧ mark ∉ front := by
  constructor
  · intro h
    unfold cut? at h
    split at h
    · cases h
    · rename_i b after hrest
      cases h
      have hhead := List.head?_dropWhile_not (· != mark) text
      rw [hrest] at hhead
      have hmark : b = mark := by simpa using hhead
      refine ⟨?_, not_mem_before mark text⟩
      rw [← hmark, ← hrest, hmark, before, List.takeWhile_append_dropWhile]
  · rintro ⟨rfl, hfront⟩
    have hrest : (front ++ mark :: back).dropWhile (· != mark) = mark :: back := by
      rw [List.dropWhile_append_of_pos (ne_of_not_mem hfront), List.dropWhile_cons_of_neg (by simp)]
    rw [cut?, hrest, before_append_mark hfront]

theorem split_cons_mark (mark : UInt8) (rest : Bytes) :
    split mark (mark :: rest) = [] :: split mark rest := by
  rw [split, List.foldr_cons, if_pos rfl]
  rfl

theorem split_cons_of_ne {b : UInt8} {rest piece : Bytes} {others : List Bytes} (h : b ≠ mark)
    (hrest : split mark rest = piece :: others) :
    split mark (b :: rest) = (b :: piece) :: others := by
  unfold split at hrest ⊢
  rw [List.foldr_cons, if_neg h, hrest]

/-- The first piece of a text is what stands before the first mark. -/
theorem exists_split_eq (mark : UInt8) (text : Bytes) :
    ∃ others, split mark text = before mark text :: others := by
  induction text with
  | nil => exact ⟨[], rfl⟩
  | cons b rest ih =>
      by_cases h : b = mark
      · refine ⟨split mark rest, ?_⟩
        rw [h, split_cons_mark, before, List.takeWhile_cons_of_neg (by simp)]
      · rcases ih with ⟨others, hothers⟩
        refine ⟨others, ?_⟩
        rw [split_cons_of_ne h hothers, before, before,
          List.takeWhile_cons_of_pos (by simpa using h)]

/-- A mark ends one piece and starts the next. -/
theorem split_append_mark (mark : UInt8) (front back : Bytes) :
    split mark (front ++ mark :: back) = split mark front ++ split mark back := by
  induction front with
  | nil => exact split_cons_mark mark back
  | cons b front ih =>
      by_cases h : b = mark
      · rw [h, List.cons_append, split_cons_mark, split_cons_mark, ih, List.cons_append]
      · rcases exists_split_eq mark front with ⟨others, hothers⟩
        rw [hothers, List.cons_append] at ih
        rw [List.cons_append, split_cons_of_ne h ih, split_cons_of_ne h hothers, List.cons_append]

theorem split_of_not_mem {text : Bytes} (h : mark ∉ text) : split mark text = [text] := by
  induction text with
  | nil => rfl
  | cons b rest ih =>
      have hb : b ≠ mark := fun heq => h (heq ▸ List.mem_cons_self)
      have hrest : mark ∉ rest := fun hmem => h (List.mem_cons_of_mem b hmem)
      exact split_cons_of_ne hb (ih hrest)

theorem not_mem_of_mem_split {text piece : Bytes} (h : piece ∈ split mark text) : mark ∉ piece := by
  induction text generalizing piece with
  | nil =>
      cases List.mem_singleton.1 h
      exact List.not_mem_nil
  | cons b rest ih =>
      by_cases hb : b = mark
      · rw [hb, split_cons_mark] at h
        rcases List.mem_cons.1 h with rfl | hmem
        · exact List.not_mem_nil
        · exact ih hmem
      · rcases exists_split_eq mark rest with ⟨others, hothers⟩
        rw [split_cons_of_ne hb hothers] at h
        rcases List.mem_cons.1 h with rfl | hmem
        · have hbefore := not_mem_before mark rest
          simpa [Ne.symm hb] using hbefore
        · exact ih (hothers ▸ List.mem_cons_of_mem _ hmem)

theorem join_cons_cons (mark : UInt8) (piece next : Bytes) (others : List Bytes) :
    join [mark] (piece :: next :: others) = piece ++ mark :: join [mark] (next :: others) := by
  simp [join, List.intercalate_cons_cons]

/-- The pieces of a text, with marks between them, give it back. -/
theorem join_split (mark : UInt8) (text : Bytes) : join [mark] (split mark text) = text := by
  induction text with
  | nil => rfl
  | cons b rest ih =>
      rcases exists_split_eq mark rest with ⟨others, hothers⟩
      rw [hothers] at ih
      by_cases hb : b = mark
      · rw [hb, split_cons_mark, hothers, join_cons_cons, ih, List.nil_append]
      · rw [split_cons_of_ne hb hothers]
        cases others with
        | nil =>
            have hrest : before mark rest = rest := by simpa [join] using ih
            simp [join, hrest]
        | cons next others =>
            rw [join_cons_cons] at ih ⊢
            rw [List.cons_append, ih]

/-- Pieces without a mark are what the text made of them is cut into. -/
theorem split_join {pieces : List Bytes} (hne : pieces ≠ []) (h : ∀ piece ∈ pieces, mark ∉ piece) :
    split mark (join [mark] pieces) = pieces := by
  induction pieces with
  | nil => exact absurd rfl hne
  | cons piece others ih =>
      have hpiece := h piece List.mem_cons_self
      cases others with
      | nil =>
          rw [join, List.intercalate_singleton, split_of_not_mem hpiece]
      | cons next others =>
          have hothers :=
            ih (List.cons_ne_nil next others) fun piece hmem =>
              h piece (List.mem_cons_of_mem _ hmem)
          rw [join_cons_cons, split_append_mark, split_of_not_mem hpiece, hothers,
            List.singleton_append]

/-- The last piece of a text grows with what is put behind the text. -/
theorem exists_split_append {tail : Bytes} (h : mark ∉ tail) (text : Bytes) :
    ∃ front last, split mark text = front ++ [last] ∧
      split mark (text ++ tail) = front ++ [last ++ tail] := by
  induction text with
  | nil => exact ⟨[], [], rfl, split_of_not_mem h⟩
  | cons b rest ih =>
      rcases ih with ⟨front, last, hrest, hgrown⟩
      by_cases hb : b = mark
      · refine ⟨[] :: front, last, ?_, ?_⟩
        · rw [hb, split_cons_mark, hrest, List.cons_append]
        · rw [hb, List.cons_append, split_cons_mark, hgrown, List.cons_append]
      · cases front with
        | nil => exact ⟨[], b :: last, split_cons_of_ne hb hrest, split_cons_of_ne hb hgrown⟩
        | cons first front =>
            exact ⟨(b :: first) :: front, last, split_cons_of_ne hb hrest,
              split_cons_of_ne hb hgrown⟩

theorem dropStart_append (start text : Bytes) : dropStart start (start ++ text) = text := by
  have hstart : start.isPrefixOf (start ++ text) = true :=
    List.isPrefixOf_iff_prefix.2 (List.prefix_append start text)
  rw [dropStart, if_pos hstart, List.drop_left]

/-- A start is dropped, or there is none. -/
theorem dropStart_cases (start text : Bytes) :
    text = start ++ dropStart start text ∨ dropStart start text = text := by
  unfold dropStart
  split
  · rename_i hstart
    rcases List.isPrefixOf_iff_prefix.1 hstart with ⟨rest, rfl⟩
    exact .inl (by rw [List.drop_left])
  · exact .inr rfl

theorem dropStart_of_not_mem {start text : Bytes} {b : UInt8} (hstart : b ∈ start)
    (htext : b ∉ text) :
    dropStart start text = text := by
  rcases dropStart_cases start text with h | h
  · rw [h] at htext
    exact absurd (List.mem_append_left _ hstart) htext
  · exact h

end Bytes

/-! ## Lines that fit -/

namespace Lines

theorem overlong_eq_false_iff {text : Bytes} :
    (ofBytes text).overlong = false ↔ ∀ piece ∈ pieces text, piece.length < limit := by
  simp [ofBytes, fits]

theorem lines_of_fits {text : Bytes} (h : ∀ piece ∈ pieces text, piece.length < limit) :
    (ofBytes text).lines = (pieces text).map dropReturn := by
  have htake : (pieces text).takeWhile fits = pieces text := by
    refine List.takeWhile_eq_self_iff.2 ?_
    intro piece hpiece
    simpa [fits] using h piece hpiece
  rw [ofBytes, htake]

theorem dropReturn_isPrefix (raw : Bytes) : dropReturn raw <+: raw := by
  unfold dropReturn
  split
  · exact List.dropLast_prefix raw
  · exact List.prefix_refl raw

theorem mem_dropReturn_or {raw : Bytes} {b : UInt8} (h : b ∈ raw) :
    b ∈ dropReturn raw ∨ b = 0x0D := by
  unfold dropReturn
  split
  · rename_i hlast
    rcases List.getLast?_eq_some_iff.1 hlast with ⟨front, rfl⟩
    simpa using h
  · exact .inl h

theorem not_mem_of_mem_pieces {text piece : Bytes} (h : piece ∈ pieces text) :
    (0x0A : UInt8) ∉ piece := by
  have hmem : piece ∈ Bytes.split 0x0A text := by
    unfold pieces at h
    dsimp only at h
    split at h
    · exact (List.dropLast_sublist _).subset h
    · exact h
  exact Bytes.not_mem_of_mem_split hmem

/-- A text is read up to the first piece that does not fit. -/
theorem ofBytes_eq {text : Bytes} {raws rest : List Bytes} (hpieces : pieces text = raws ++ rest)
    (hraws : ∀ raw ∈ raws, fits raw = true) (hrest : ∀ raw ∈ rest.head?, fits raw = false) :
    ofBytes text = ⟨raws.map dropReturn, rest.any (fun raw => !fits raw)⟩ := by
  have hnone : raws.any (fun raw => !fits raw) = false := by
    refine List.any_eq_false.2 fun raw hraw => ?_
    simp [hraws raw hraw]
  rw [ofBytes, hpieces, takeWhile_append_stop hraws hrest, List.any_append, hnone, Bool.false_or]

/-- Reads the pieces of a text. -/
def ofPieces (raws : List Bytes) : Lines where
  lines := (raws.takeWhile fits).map dropReturn
  overlong := raws.any (fun line => !fits line)

theorem ofBytes_eq_ofPieces (text : Bytes) : ofBytes text = ofPieces (pieces text) := rfl

/-- Behind pieces that fit, reading goes on. -/
theorem ofPieces_append {front : List Bytes} (h : ∀ raw ∈ front, fits raw = true)
    (back : List Bytes) :
    ofPieces (front ++ back) =
      ⟨front.map dropReturn ++ (ofPieces back).lines, (ofPieces back).overlong⟩ := by
  have hnone : front.any (fun raw => !fits raw) = false := by
    simpa [List.any_eq_false] using h
  simp only [ofPieces, List.takeWhile_append_of_pos h, List.map_append, List.any_append, hnone,
    Bool.false_or]

/-- What stands behind a piece that does not fit is not read. -/
theorem ofPieces_append_of_unfit {front : List Bytes} {raw : Bytes} (hraw : raw ∈ front)
    (h : fits raw = false) (back : List Bytes) : ofPieces (front ++ back) = ofPieces front := by
  have hany : front.any (fun raw => !fits raw) = true := List.any_eq_true.2 ⟨raw, hraw, by simp [h]⟩
  have hlength : (front.takeWhile fits).length ≠ front.length := by
    intro hsame
    have hall := List.takeWhile_eq_self_iff.1 ((List.takeWhile_prefix fits).eq_of_length hsame)
    simp [hall raw hraw] at h
  simp only [ofPieces, List.takeWhile_append, hlength, ↓reduceIte, List.any_append, hany,
    Bool.true_or]

/-- A newline ends one line, and the pieces behind it are those of a text of its own. -/
theorem pieces_append_mark (front back : Bytes) :
    pieces (front ++ 0x0A :: back) = Bytes.split 0x0A front ++ pieces back := by
  rcases Bytes.exists_split_eq 0x0A back with ⟨others, hothers⟩
  unfold pieces
  rw [Bytes.split_append_mark, hothers]
  simp only [List.getLast?_append_cons, List.dropLast_append_cons]
  split
  · rfl
  · rfl

theorem pieces_append_newline {front : Bytes} (h : (0x0A : UInt8) ∉ front) (back : Bytes) :
    pieces (front ++ 0x0A :: back) = front :: pieces back := by
  rw [pieces_append_mark, Bytes.split_of_not_mem h, List.singleton_append]

theorem pieces_of_not_mem {text : Bytes} (h : (0x0A : UInt8) ∉ text) (hne : text ≠ []) :
    pieces text = [text] := by
  simp [pieces, Bytes.split_of_not_mem h, hne]

theorem pieces_append {front : Bytes} (h : front.getLast? = some 0x0A) (back : Bytes) :
    pieces (front ++ back) = pieces front ++ pieces back := by
  rcases List.getLast?_eq_some_iff.1 h with ⟨text, rfl⟩
  have hnone : pieces [] = [] := rfl
  calc
    pieces (text ++ [0x0A] ++ back) = pieces (text ++ 0x0A :: back) := by simp
    _ = Bytes.split 0x0A text ++ pieces back := pieces_append_mark text back
    _ = pieces (text ++ [0x0A]) ++ pieces back := by simp [pieces_append_mark text [], hnone]

theorem lines_append {front back : Bytes} (h : front.getLast? = some 0x0A)
    (hfits : (ofBytes (front ++ back)).overlong = false) :
    (ofBytes (front ++ back)).lines = (ofBytes front).lines ++ (ofBytes back).lines := by
  have hall := overlong_eq_false_iff.1 hfits
  simp only [pieces_append h, List.mem_append] at hall
  rw [lines_of_fits (by simpa [pieces_append h] using hall),
    lines_of_fits fun piece hpiece => hall piece (.inl hpiece),
    lines_of_fits fun piece hpiece => hall piece (.inr hpiece), pieces_append h, List.map_append]

/-- How newlines break a text into lines: a newline ends a line, and so does the end of the text
behind a line that is not empty. -/
inductive Broken : Bytes → List Bytes → Prop where
  | empty : Broken [] []
  | last {line : Bytes} (hline : (0x0A : UInt8) ∉ line) (hne : line ≠ []) : Broken line [line]
  | newline {line text : Bytes} {lines : List Bytes} (hline : (0x0A : UInt8) ∉ line)
      (h : Broken text lines) : Broken (line ++ 0x0A :: text) (line :: lines)

theorem broken_pieces (text : Bytes) : Broken text (pieces text) := by
  -- Along the newlines: what stands behind the first one is a shorter text.
  induction hlength : text.length using Nat.strong_induction_on generalizing text with
  | _ n ih =>
      by_cases hmem : (0x0A : UInt8) ∈ text
      · rcases List.eq_append_cons_of_mem hmem with ⟨front, back, rfl, hfront⟩
        have hshorter : back.length < n := by
          rw [← hlength, List.length_append, List.length_cons]
          omega
        rw [pieces_append_newline hfront]
        exact .newline hfront (ih back.length hshorter back rfl)
      · by_cases hnil : text = []
        · rw [hnil]
          exact .empty
        · rw [pieces_of_not_mem hmem hnil]
          exact .last hmem hnil

/-- The pieces of a text are its lines, which newlines determine. -/
theorem broken_iff {text : Bytes} {lines : List Bytes} :
    Broken text lines ↔ lines = pieces text := by
  constructor
  · intro h
    induction h with
    | empty => rfl
    | last hline hne => exact (pieces_of_not_mem hline hne).symm
    | newline hline _ ih => rw [pieces_append_newline hline, ← ih]
  · rintro rfl
    exact broken_pieces text

/-- A line in front of a text is read in front of its lines. -/
theorem ofBytes_append_newline {front : Bytes} (h : (0x0A : UInt8) ∉ front)
    (hfits : fits front = true) (back : Bytes) :
    ofBytes (front ++ 0x0A :: back) =
      ⟨dropReturn front :: (ofBytes back).lines, (ofBytes back).overlong⟩ := by
  rw [ofBytes, pieces_append_newline h, List.takeWhile_cons_of_pos hfits, List.any_cons, hfits]
  rfl

theorem exists_pieces_eq (text : Bytes) :
    ∃ raws rest, pieces text = raws ++ rest ∧ (∀ raw ∈ raws, fits raw = true) ∧
      ∀ raw ∈ rest.head?, fits raw = false := by
  refine ⟨(pieces text).takeWhile fits, (pieces text).dropWhile fits, ?_, ?_, ?_⟩
  · exact List.takeWhile_append_dropWhile.symm
  · exact fun raw hraw => List.mem_takeWhile_imp hraw
  · intro raw hraw
    have hhead := List.head?_dropWhile_not fits (pieces text)
    rw [Option.mem_def.1 hraw] at hhead
    simpa using hhead

/-- Every list of texts without newlines is the list of the pieces of a text. -/
theorem exists_pieces {raws : List Bytes} (h : ∀ raw ∈ raws, (0x0A : UInt8) ∉ raw) :
    ∃ text, pieces text = raws := by
  let text := raws.flatMap (fun raw => raw ++ [0x0A])
  have hsplit : Bytes.split 0x0A text = raws ++ [[]] := by
    induction raws with
    | nil => rfl
    | cons raw raws ih =>
        have hrest := ih fun raw' hraw' => h raw' (List.mem_cons_of_mem raw hraw')
        have htext : text = raw ++ 0x0A :: raws.flatMap (fun raw => raw ++ [0x0A]) := by simp [text]
        rw [htext, Bytes.split_append_mark, Bytes.split_of_not_mem (h raw List.mem_cons_self),
          hrest]
        rfl
  exact ⟨text, by simp [pieces, hsplit]⟩

/-- A line of a text can be cut short. -/
theorem exists_cut {text : Bytes} {front back : List Bytes} {line line' : Bytes}
    (h : (ofBytes text).lines = front ++ line :: back) (hcut : line' <+: line)
    (hne : line' ≠ line) :
    ∃ text', ofBytes text' = ⟨front ++ line' :: back, (ofBytes text).overlong⟩ := by
  rcases exists_pieces_eq text with ⟨raws, rest, hpieces, hfits, hrest⟩
  rw [ofBytes_eq hpieces hfits hrest] at h ⊢
  rcases List.map_eq_append_iff.1 h with ⟨before, others, rfl, rfl, hothers⟩
  rcases List.map_eq_cons_iff.1 hothers with ⟨raw, after, rfl, rfl, rfl⟩
  -- A carriage return more keeps one that the cut line may end in from being dropped.
  let raw' := line' ++ [0x0D]
  have hreturn : dropReturn raw' = line' := by simp [raw', dropReturn]
  have hmem : ∀ {r : Bytes} {others : List Bytes}, r ∈ before ++ raw' :: others →
      r = raw' ∨ r ∈ before ++ raw :: others := by
    intro r others hr
    simp only [List.mem_append, List.mem_cons] at hr ⊢
    tauto
  have hfits' : ∀ r ∈ before ++ raw' :: after, fits r = true := by
    intro r hr
    rcases hmem hr with rfl | hold
    · have hraw : raw.length < limit := by simpa [fits] using hfits raw (by simp)
      have hshorter : line'.length < (dropReturn raw).length :=
        Nat.lt_of_le_of_ne hcut.length_le fun hlength => hne (hcut.eq_of_length hlength)
      have hwhole := (dropReturn_isPrefix raw).length_le
      simp only [raw', fits, List.length_append, List.length_singleton, decide_eq_true_eq]
      omega
    · exact hfits r hold
  have hnewlines : ∀ r ∈ before ++ raw' :: (after ++ rest), (0x0A : UInt8) ∉ r := by
    have hold : ∀ r ∈ before ++ raw :: (after ++ rest), (0x0A : UInt8) ∉ r := by
      intro r hr
      rw [← List.cons_append, ← List.append_assoc, ← hpieces] at hr
      exact not_mem_of_mem_pieces hr
    intro r hr
    rcases hmem hr with rfl | hr
    · have hline : (0x0A : UInt8) ∉ line' := fun hbyte =>
        hold raw (by simp) ((hcut.trans (dropReturn_isPrefix raw)).subset hbyte)
      simpa [raw'] using hline
    · exact hold r hr
  rcases exists_pieces hnewlines with ⟨text', htext'⟩
  rw [← List.cons_append, ← List.append_assoc] at htext'
  refine ⟨text', ?_⟩
  rw [ofBytes_eq htext' hfits' hrest, List.map_append, List.map_cons, hreturn]

end Lines

namespace Utf8

/-! ## One character -/

/-- How a byte starts a character: the bytes behind it that belong to the character are continuation
bytes, and the code point needs them all. -/
inductive Leads (b : UInt8) : Bytes → Char → Nat → Prop where
  | one {rest : Bytes} (hlead : b < 0x80) : Leads b rest (Char.ofNat b.toNat) 0
  | two {x : UInt8} {rest : Bytes} {m : Nat} {c : Char} (hlead : 0xC0 ≤ b ∧ b < 0xE0)
      (hx : continuation? x = some m) (hchar : charAbove? 0x80 (b.toNat % 32 * 64 + m) = some c) :
      Leads b (x :: rest) c 1
  | three {x y : UInt8} {rest : Bytes} {m n : Nat} {c : Char} (hlead : 0xE0 ≤ b ∧ b < 0xF0)
      (hx : continuation? x = some m) (hy : continuation? y = some n)
      (hchar : charAbove? 0x800 ((b.toNat % 16 * 64 + m) * 64 + n) = some c) :
      Leads b (x :: y :: rest) c 2
  | four {x y z : UInt8} {rest : Bytes} {m n k : Nat} {c : Char} (hlead : 0xF0 ≤ b ∧ b < 0xF8)
      (hx : continuation? x = some m) (hy : continuation? y = some n)
      (hz : continuation? z = some k)
      (hchar : charAbove? 0x10000 (((b.toNat % 8 * 64 + m) * 64 + n) * 64 + k) = some c) :
      Leads b (x :: y :: z :: rest) c 3

theorem leads_of_head? {b : UInt8} {rest : Bytes} {c : Char} {more : Nat}
    (h : head? b rest = some (c, more)) : Leads b rest c more := by
  -- The cases are the lengths of an encoding. The limits are tested in ascending order, so that a
  -- test that fails bounds the lead byte from below in the next case.
  unfold head? at h
  split at h
  · rename_i hlead
    cases h
    exact .one hlead
  · split at h
    · cases h
    · rename_i hlow
      have hlow := UInt8.not_lt.1 hlow
      split at h
      · rename_i hlead
        rcases Option.bind_eq_some_iff.1 h with ⟨m, hm, h⟩
        rcases Option.bind_eq_some_iff.1 h with ⟨c', hc, h⟩
        cases h
        rcases Option.bind_eq_some_iff.1 hm with ⟨x, hx, hm⟩
        match rest, hx with
        | _ :: rest, rfl => exact .two ⟨hlow, hlead⟩ hm hc
      · rename_i hlow
        have hlow := UInt8.not_lt.1 hlow
        split at h
        · rename_i hlead
          rcases Option.bind_eq_some_iff.1 h with ⟨m, hm, h⟩
          rcases Option.bind_eq_some_iff.1 h with ⟨n, hn, h⟩
          rcases Option.bind_eq_some_iff.1 h with ⟨c', hc, h⟩
          cases h
          rcases Option.bind_eq_some_iff.1 hm with ⟨x, hx, hm⟩
          rcases Option.bind_eq_some_iff.1 hn with ⟨y, hy, hn⟩
          match rest, hx, hy with
          | _ :: _ :: rest, rfl, rfl => exact .three ⟨hlow, hlead⟩ hm hn hc
        · rename_i hlow
          have hlow := UInt8.not_lt.1 hlow
          split at h
          · rename_i hlead
            rcases Option.bind_eq_some_iff.1 h with ⟨m, hm, h⟩
            rcases Option.bind_eq_some_iff.1 h with ⟨n, hn, h⟩
            rcases Option.bind_eq_some_iff.1 h with ⟨k, hk, h⟩
            rcases Option.bind_eq_some_iff.1 h with ⟨c', hc, h⟩
            cases h
            rcases Option.bind_eq_some_iff.1 hm with ⟨x, hx, hm⟩
            rcases Option.bind_eq_some_iff.1 hn with ⟨y, hy, hn⟩
            rcases Option.bind_eq_some_iff.1 hk with ⟨z, hz, hk⟩
            match rest, hx, hy, hz with
            | _ :: _ :: _ :: rest, rfl, rfl, rfl => exact .four ⟨hlow, hlead⟩ hm hn hk hc
          · cases h

theorem Leads.head?_eq {b : UInt8} {rest : Bytes} {c : Char} {more : Nat}
    (h : Leads b rest c more) :
    head? b rest = some (c, more) := by
  -- A lead byte of one length is none of the shorter ones.
  have hnot : ∀ {least limit : UInt8}, least ≤ b → limit ≤ least → ¬ b < limit :=
    fun hlead hle => UInt8.not_lt.2 (UInt8.le_trans hle hlead)
  cases h with
  | one hlead => rw [head?, if_pos hlead]
  | two hlead hx hchar =>
      rw [head?, if_neg (hnot hlead.1 (by decide)), if_neg (hnot hlead.1 (by decide)),
        if_pos hlead.2]
      simp [hx, hchar]
  | three hlead hx hy hchar =>
      rw [head?, if_neg (hnot hlead.1 (by decide)), if_neg (hnot hlead.1 (by decide)),
        if_neg (hnot hlead.1 (by decide)), if_pos hlead.2]
      simp [hx, hy, hchar]
  | four hlead hx hy hz hchar =>
      rw [head?, if_neg (hnot hlead.1 (by decide)), if_neg (hnot hlead.1 (by decide)),
        if_neg (hnot hlead.1 (by decide)), if_neg (hnot hlead.1 (by decide)), if_pos hlead.2]
      simp [hx, hy, hz, hchar]

namespace Leads

variable {b : UInt8} {rest : Bytes} {c : Char} {more : Nat}

theorem more_le (h : Leads b rest c more) : more ≤ rest.length := by
  cases h with
  | one | two | three | four => simp

/-- What stands behind a character does not matter. -/
theorem take_append (h : Leads b rest c more) (tail : Bytes) :
    Leads b (rest.take more ++ tail) c more := by
  cases h with
  | one hlead => exact .one hlead
  | two hlead hx hchar => exact .two hlead hx hchar
  | three hlead hx hy hchar => exact .three hlead hx hy hchar
  | four hlead hx hy hz hchar => exact .four hlead hx hy hz hchar

theorem append (h : Leads b rest c more) (tail : Bytes) : Leads b (rest ++ tail) c more := by
  have hlonger := h.take_append (rest.drop more ++ tail)
  rwa [← List.append_assoc, List.take_append_drop] at hlonger

/-- A character does not reach into a text that starts with no continuation byte. -/
theorem of_append {tail : Bytes} (h : Leads b (rest ++ tail) c more)
    (htail : ∀ x ∈ tail.head?, continuation? x = none) : Leads b rest c more := by
  have hstop : ∀ {x : UInt8} {others : Bytes} {m : Nat}, tail = x :: others →
      continuation? x ≠ some m := by
    intro x others m htext hx
    have hnone := htail x (by rw [htext]; rfl)
    rw [hnone] at hx
    cases hx
  -- Bytes that the character needs beyond `rest` would be the first ones of `tail`.
  generalize htext : rest ++ tail = text at h
  cases h with
  | one hlead => exact .one hlead
  | two hlead hx hchar =>
      match rest, htext with
      | [], htext => exact absurd hx (hstop htext)
      | x :: rest, htext =>
          cases htext
          exact .two hlead hx hchar
  | three hlead hx hy hchar =>
      match rest, htext with
      | [], htext => exact absurd hx (hstop htext)
      | [x], htext => exact absurd hy (hstop (List.cons.inj htext).2)
      | x :: y :: rest, htext =>
          cases htext
          exact .three hlead hx hy hchar
  | four hlead hx hy hz hchar =>
      match rest, htext with
      | [], htext => exact absurd hx (hstop htext)
      | [x], htext => exact absurd hy (hstop (List.cons.inj htext).2)
      | [x, y], htext => exact absurd hz (hstop (List.cons.inj (List.cons.inj htext).2).2)
      | x :: y :: z :: rest, htext =>
          cases htext
          exact .four hlead hx hy hz hchar

end Leads

theorem continuation?_eq_some {x : UInt8} {m : Nat} (h : continuation? x = some m) :
    0x80 ≤ x.toNat ∧ x.toNat < 0xC0 ∧ m = x.toNat % 64 := by
  unfold continuation? at h
  split at h
  · rename_i hrange
    cases h
    exact ⟨UInt8.le_iff_toNat_le.1 hrange.1, UInt8.lt_iff_toNat_lt.1 hrange.2, rfl⟩
  · cases h

theorem charAbove?_eq_some {least value : Nat} {c : Char} (h : charAbove? least value = some c) :
    least ≤ value ∧ c.val.toNat = value := by
  unfold charAbove? at h
  split at h
  · rename_i hvalue
    cases h
    refine ⟨hvalue.1, ?_⟩
    rw [Char.ofNat, dif_pos hvalue.2]
    rfl
  · cases h

theorem ofNat_eq_byte (b : UInt8) {n : Nat} (h : n = b.toNat) : UInt8.ofNat n = b := by
  rw [h, UInt8.ofNat_toNat]

theorem toNat_range {b least limit : UInt8} (h : least ≤ b ∧ b < limit) :
    least.toNat ≤ b.toNat ∧ b.toNat < limit.toNat :=
  ⟨UInt8.le_iff_toNat_le.1 h.1, UInt8.lt_iff_toNat_lt.1 h.2⟩

/-- A character is encoded by the bytes it was read from. -/
theorem Leads.encodeChar {b : UInt8} {rest : Bytes} {c : Char} {more : Nat}
    (h : Leads b rest c more) :
    String.utf8EncodeChar c = b :: rest.take more := by
  -- In every case the code point decides the length, and its digits to base 64 are the bytes.
  cases h with
  | one hlead =>
      have hlt : b.toNat < 128 := UInt8.lt_iff_toNat_lt.1 hlead
      have hvalue : (Char.ofNat b.toNat).val.toNat = b.toNat := by
        rw [Char.ofNat, dif_pos (.inl (by omega))]
        rfl
      simp only [String.utf8EncodeChar, hvalue]
      rw [if_pos (by omega), ofNat_eq_byte b rfl, List.take_zero]
  | @two x rest m c hlead hx hchar =>
      rcases toNat_range hlead with ⟨hfrom, hto⟩
      rcases continuation?_eq_some hx with ⟨hxfrom, hxto, rfl⟩
      rcases charAbove?_eq_some hchar with ⟨hleast, hvalue⟩
      simp only [UInt8.reduceToNat] at hfrom hto
      simp only [String.utf8EncodeChar, hvalue]
      rw [if_neg (by omega), if_pos (by omega), ofNat_eq_byte b (by omega),
        ofNat_eq_byte x (by omega)]
      rfl
  | @three x y rest m n c hlead hx hy hchar =>
      rcases toNat_range hlead with ⟨hfrom, hto⟩
      rcases continuation?_eq_some hx with ⟨hxfrom, hxto, rfl⟩
      rcases continuation?_eq_some hy with ⟨hyfrom, hyto, rfl⟩
      rcases charAbove?_eq_some hchar with ⟨hleast, hvalue⟩
      simp only [UInt8.reduceToNat] at hfrom hto
      simp only [String.utf8EncodeChar, hvalue]
      rw [if_neg (by omega), if_neg (by omega), if_pos (by omega), ofNat_eq_byte b (by omega),
        ofNat_eq_byte x (by omega), ofNat_eq_byte y (by omega)]
      rfl
  | @four x y z rest m n k c hlead hx hy hz hchar =>
      rcases toNat_range hlead with ⟨hfrom, hto⟩
      rcases continuation?_eq_some hx with ⟨hxfrom, hxto, rfl⟩
      rcases continuation?_eq_some hy with ⟨hyfrom, hyto, rfl⟩
      rcases continuation?_eq_some hz with ⟨hzfrom, hzto, rfl⟩
      rcases charAbove?_eq_some hchar with ⟨hleast, hvalue⟩
      simp only [UInt8.reduceToNat] at hfrom hto
      simp only [String.utf8EncodeChar, hvalue]
      rw [if_neg (by omega), if_neg (by omega), if_neg (by omega), ofNat_eq_byte b (by omega),
        ofNat_eq_byte x (by omega), ofNat_eq_byte y (by omega), ofNat_eq_byte z (by omega)]
      rfl

/-! ## A whole text -/

/-- The reader goes on where the last character ends, and the items it has read stand in front. -/
theorem readFrom_eq (read : List Item) (skip : Nat) (text : Bytes) :
    readFrom read skip text = read.reverse ++ items (text.drop skip) := by
  induction text generalizing read skip with
  | nil => simp [readFrom, items]
  | cons b rest ih =>
      cases skip with
      | succ skip => rw [readFrom, ih, List.drop_succ_cons]
      | zero =>
          rw [List.drop_zero, items, readFrom, readFrom]
          cases head? b rest with
          | none =>
              dsimp only
              rw [ih, ih [.stray b]]
              simp
          | some lead =>
              dsimp only
              rw [ih, ih [.char lead.1]]
              simp

@[simp] theorem items_nil : items [] = [] := rfl

theorem items_of_leads {b : UInt8} {rest : Bytes} {c : Char} {more : Nat}
    (h : Leads b rest c more) :
    items (b :: rest) = .char c :: items (rest.drop more) := by
  rw [items, readFrom, h.head?_eq]
  dsimp only
  rw [readFrom_eq]
  rfl

theorem items_of_none {b : UInt8} {rest : Bytes} (h : head? b rest = none) :
    items (b :: rest) = .stray b :: items rest := by
  rw [items, readFrom, h]
  dsimp only
  rw [readFrom_eq]
  rfl

/-- How a text is read, item by item. -/
inductive Reads : Bytes → List Item → Prop where
  | nil : Reads [] []
  | char {b : UInt8} {rest : Bytes} {c : Char} {more : Nat} {others : List Item}
      (hlead : Leads b rest c more) (hrest : Reads (rest.drop more) others) :
      Reads (b :: rest) (.char c :: others)
  | stray {b : UInt8} {rest : Bytes} {others : List Item} (hnone : head? b rest = none)
      (hrest : Reads rest others) : Reads (b :: rest) (.stray b :: others)

theorem reads_items (text : Bytes) : Reads text (items text) := by
  induction hlength : text.length using Nat.strong_induction_on generalizing text with
  | _ length ih =>
      cases text with
      | nil => exact .nil
      | cons b rest =>
          rw [List.length_cons] at hlength
          cases hhead : head? b rest with
          | none =>
              rw [items_of_none hhead]
              exact .stray hhead (ih rest.length (by omega) rest rfl)
          | some lead =>
              have hlead : Leads b rest lead.1 lead.2 := leads_of_head? hhead
              have hshorter : (rest.drop lead.2).length < length := by
                rw [List.length_drop]
                omega
              rw [items_of_leads hlead]
              exact .char hlead (ih _ hshorter _ rfl)

theorem bytes_append (front back : List Item) : bytes (front ++ back) = bytes front ++ bytes back :=
  List.flatMap_append

theorem bytes_char_cons {b : UInt8} {rest : Bytes} {c : Char} {more : Nat} (h : Leads b rest c more)
    (others : List Item) : bytes (.char c :: others) = b :: (rest.take more ++ bytes others) := by
  rw [bytes, List.flatMap_cons, ← bytes, Item.bytes, h.encodeChar, List.cons_append]

namespace Reads

variable {text : Bytes}

theorem bytes_eq {read : List Item} (h : Reads text read) : bytes read = text := by
  induction h with
  | nil => rfl
  | char hlead _ ih => rw [bytes_char_cons hlead, ih, List.take_append_drop]
  | @stray b rest others _ _ ih =>
      have hcons : bytes (.stray b :: others) = b :: bytes others := rfl
      rw [hcons, ih]

theorem items_eq {read : List Item} (h : Reads text read) : items text = read := by
  induction h with
  | nil => rfl
  | char hlead _ ih => rw [items_of_leads hlead, ih]
  | stray hnone _ ih => rw [items_of_none hnone, ih]

/-- Both parts of what was read are read back from their own bytes. -/
theorem split {front back : List Item} (h : Reads text (front ++ back)) :
    Reads (bytes front) front ∧ Reads (bytes back) back := by
  induction front generalizing text with
  | nil =>
      rw [List.nil_append] at h
      refine ⟨.nil, ?_⟩
      rw [h.bytes_eq]
      exact h
  | cons item front ih =>
      rw [List.cons_append] at h
      cases h with
      | @char b rest c more _ hlead hrest =>
          rcases ih hrest with ⟨hfront, hback⟩
          have hlength : (rest.take more).length = more := List.length_take_of_le hlead.more_le
          refine ⟨?_, hback⟩
          rw [bytes_char_cons hlead]
          refine .char (hlead.take_append _) ?_
          rw [List.drop_left' hlength]
          exact hfront
      | @stray b rest _ hnone hrest =>
          rcases ih hrest with ⟨hfront, hback⟩
          have hcons : bytes (.stray b :: front) = b :: bytes front := rfl
          rw [hcons]
          refine ⟨.stray ?_ hfront, hback⟩
          -- A character among fewer bytes would have been there among all of them.
          have htext : rest = bytes front ++ bytes back := by rw [← bytes_append, hrest.bytes_eq]
          cases hhead : head? b (bytes front) with
          | none => rfl
          | some lead =>
              have hlonger := ((leads_of_head? hhead).append (bytes back)).head?_eq
              rw [← htext, hnone] at hlonger
              cases hlonger

/-- A text in front of one that starts with no continuation byte is read as if it stood alone. -/
theorem append {tail : Bytes} {read others : List Item} (h : Reads text read)
    (hothers : Reads tail others) (htail : ∀ x ∈ tail.head?, continuation? x = none) :
    Reads (text ++ tail) (read ++ others) := by
  induction h with
  | nil => exact hothers
  | char hlead _ ih =>
      rw [List.cons_append, List.cons_append]
      refine .char (hlead.append tail) ?_
      rw [List.drop_append_of_le_length hlead.more_le]
      exact ih
  | @stray b rest _ hnone _ ih =>
      rw [List.cons_append, List.cons_append]
      refine .stray ?_ ih
      cases hhead : head? b (rest ++ tail) with
      | none => rfl
      | some lead =>
          have hshorter := ((leads_of_head? hhead).of_append htail).head?_eq
          rw [hnone] at hshorter
          cases hshorter

end Reads

/-- Reading loses nothing. -/
theorem bytes_items (text : Bytes) : bytes (items text) = text :=
  (reads_items text).bytes_eq

/-- A stretch of the items of a text is read back from its own bytes. -/
theorem items_bytes_of_append {text : Bytes} {front stretch back : List Item}
    (h : items text = front ++ stretch ++ back) : items (bytes stretch) = stretch := by
  have hreads : Reads text (front ++ stretch ++ back) := h ▸ reads_items text
  exact hreads.split.1.split.2.items_eq

theorem continuation?_of_ascii {b : UInt8} (h : b < 0x80) : continuation? b = none := by
  unfold continuation?
  rw [if_neg fun hrange => UInt8.not_lt.2 hrange.1 h]

theorem items_cons_ascii {b : UInt8} (h : b < 0x80) (rest : Bytes) :
    items (b :: rest) = .char (Char.ofNat b.toNat) :: items rest := by
  rw [items_of_leads (.one h), List.drop_zero]

/-- A text in front of an ASCII byte is read as if it stood alone. -/
theorem items_append_ascii (text : Bytes) {b : UInt8} (h : b < 0x80) (rest : Bytes) :
    items (text ++ b :: rest) = items text ++ items (b :: rest) := by
  refine ((reads_items text).append (reads_items (b :: rest)) ?_).items_eq
  intro x hx
  cases hx
  exact continuation?_of_ascii h

theorem mem_chars_of_ascii {text : Bytes} {b : UInt8} (h : b < 0x80) (hmem : b ∈ text) :
    Char.ofNat b.toNat ∈ chars text := by
  rcases List.append_of_mem hmem with ⟨front, back, rfl⟩
  rw [chars, items_append_ascii front h, items_cons_ascii h, List.map_append, List.map_cons]
  exact List.mem_append_right _ List.mem_cons_self

theorem items_append_of_ascii {text : Bytes} (h : ∀ b ∈ text, b < 0x80) (rest : Bytes) :
    items (text ++ rest) = items text ++ items rest := by
  induction text with
  | nil => rfl
  | cons b others ih =>
      have hb : b < 0x80 := h b List.mem_cons_self
      rw [List.cons_append, items_cons_ascii hb, items_cons_ascii hb,
        ih fun x hx => h x (List.mem_cons_of_mem b hx), List.cons_append]

theorem chars_of_ascii {text : Bytes} (h : ∀ b ∈ text, b < 0x80) :
    chars text = text.map (fun b => Char.ofNat b.toNat) := by
  induction text with
  | nil => rfl
  | cons b rest ih =>
      have hrest := ih fun x hx => h x (List.mem_cons_of_mem b hx)
      rw [chars, items_cons_ascii (h b List.mem_cons_self), List.map_cons, ← chars, hrest,
        List.map_cons]
      rfl

theorem encode_chars_of_ascii {text : Bytes} (h : ∀ b ∈ text, b < 0x80) :
    encode (chars text) = text := by
  induction text with
  | nil => rfl
  | cons b rest ih =>
      have hitems := items_cons_ascii (h b List.mem_cons_self) rest
      have hrest := ih fun x hx => h x (List.mem_cons_of_mem b hx)
      calc
        encode (chars (b :: rest)) = String.utf8EncodeChar (Char.ofNat b.toNat) ++
          encode (chars rest) := by
          rw [chars, hitems]
          rfl
        _ = String.utf8EncodeChar (Char.ofNat b.toNat) ++
            bytes (items rest) := by rw [hrest, bytes_items]
        _ = bytes (items (b :: rest)) := by
          rw [hitems]
          rfl
        _ = b :: rest := bytes_items _

theorem chars_ne_nil_of_ascii {text : Bytes} (h : ∀ b ∈ text, b < 0x80) (hne : text ≠ []) :
    chars text ≠ [] := by
  intro hnil
  apply hne
  rw [← encode_chars_of_ascii h, hnil]
  rfl

/-! ## Encoding -/

theorem continuation?_ofNat {n : Nat} (h : n < 64) :
    continuation? (UInt8.ofNat (n + 128)) = some n := by
  have hall : ∀ n : Fin 64, continuation? (UInt8.ofNat (n.val + 128)) = some n.val := by
    decide +kernel
  exact hall ⟨n, h⟩

theorem charAbove?_eq {least value : Nat} {c : Char} (h : least ≤ value)
    (hvalue : value = c.val.toNat) :
    charAbove? least value = some c := by
  rw [hvalue] at h ⊢
  rw [charAbove?, if_pos ⟨h, c.valid⟩]
  exact congrArg some (Char.ofNat_toNat c)

/-- A lead byte whose number is known. -/
theorem lead_range (n : Nat) (least limit : UInt8) (hleast : least.toNat ≤ n)
    (hlimit : n < limit.toNat) :
    (least ≤ UInt8.ofNat n ∧ UInt8.ofNat n < limit) ∧ (UInt8.ofNat n).toNat = n := by
  have hbyte : (UInt8.ofNat n).toNat = n := UInt8.toNat_ofNat_of_lt (hlimit.trans limit.toNat_lt)
  rw [UInt8.le_iff_toNat_le, UInt8.lt_iff_toNat_lt, hbyte]
  exact ⟨⟨hleast, hlimit⟩, rfl⟩

/-- Every character is read from its encoding. -/
theorem leads_encodeChar (c : Char) :
    ∃ b rest, String.utf8EncodeChar c = b :: rest ∧ Leads b rest c rest.length := by
  have hlast : c.val.toNat < 0x110000 := by
    have hvalid : c.val.toNat.isValidChar := c.valid
    unfold Nat.isValidChar at hvalid
    omega
  unfold String.utf8EncodeChar
  -- All that is left of the character is its number, which the bytes below hold in base 64.
  generalize hv : c.val.toNat = v at hlast ⊢
  dsimp only
  by_cases hone : v ≤ 0x7F
  · rw [if_pos hone]
    have hbyte : (UInt8.ofNat v).toNat = v :=
      UInt8.toNat_ofNat_of_lt (Nat.lt_of_le_of_lt hone (by decide))
    have hlead : UInt8.ofNat v < 0x80 := by
      rw [UInt8.lt_iff_toNat_lt, hbyte]
      exact Nat.lt_succ_of_le hone
    have hchar : Char.ofNat (UInt8.ofNat v).toNat = c := by
      rw [hbyte, ← hv]
      exact Char.ofNat_toNat c
    exact ⟨_, [], rfl, hchar ▸ .one hlead⟩
  · rw [if_neg hone]
    by_cases htwo : v ≤ 0x7FF
    · rw [if_pos htwo]
      rcases lead_range (v / 64 % 32 + 192) 0xC0 0xE0 (by simp) (by simp; omega) with
        ⟨hlead, hbyte⟩
      exact ⟨_, _, rfl, .two hlead (continuation?_ofNat (by omega))
        (charAbove?_eq (by omega) (by omega))⟩
    · rw [if_neg htwo]
      by_cases hthree : v ≤ 0xFFFF
      · rw [if_pos hthree]
        rcases lead_range (v / 4096 % 16 + 224) 0xE0 0xF0 (by simp) (by simp; omega) with
          ⟨hlead, hbyte⟩
        exact ⟨_, _, rfl, .three hlead (continuation?_ofNat (by omega))
          (continuation?_ofNat (by omega)) (charAbove?_eq (by omega) (by omega))⟩
      · rw [if_neg hthree]
        rcases lead_range (v / 262144 % 8 + 240) 0xF0 0xF8 (by simp) (by simp; omega) with
          ⟨hlead, hbyte⟩
        exact ⟨_, _, rfl, .four hlead (continuation?_ofNat (by omega))
          (continuation?_ofNat (by omega)) (continuation?_ofNat (by omega))
          (charAbove?_eq (by omega) (by omega))⟩

theorem reads_encode (text : List Char) : Reads (encode text) (text.map .char) := by
  induction text with
  | nil => exact .nil
  | cons c text ih =>
      rcases leads_encodeChar c with ⟨b, rest, hencode, hlead⟩
      have hcons : encode (c :: text) = b :: (rest ++ encode text) := by
        rw [encode, List.flatMap_cons, hencode]
        rfl
      rw [hcons, List.map_cons]
      refine .char (hlead.append (encode text)) ?_
      rw [List.drop_left]
      exact ih

/-- Encoding loses nothing: the characters of a text are read back from its bytes. -/
theorem chars_encode (text : List Char) : chars (encode text) = text := by
  rw [chars, (reads_encode text).items_eq, List.map_map]
  exact List.map_id text

theorem encode_append (front back : List Char) :
    encode (front ++ back) = encode front ++ encode back :=
  List.flatMap_append

theorem encode_flatten (texts : List (List Char)) :
    encode texts.flatten = (texts.map encode).flatten := by
  induction texts with
  | nil => rfl
  | cons text texts ih =>
      rw [List.flatten_cons, encode_append, ih, List.map_cons, List.flatten_cons]

end Utf8

/-! ## Trimming -/

namespace Blank

open Utf8

/-- Whether a text has no white space at its two ends. -/
def IsTrimmed (text : Bytes) : Prop :=
  (∀ item ∈ (items text).head?, isBlankItem item = false) ∧
    ∀ item ∈ (items text).getLast?, isBlankItem item = false

instance (text : Bytes) : Decidable (IsTrimmed text) :=
  inferInstanceAs (Decidable (_ ∧ _))

/-- The items that trimming leaves. -/
def trimmed (text : Bytes) : List Item :=
  ((items text).dropWhile isBlankItem).rdropWhile isBlankItem

theorem trim_eq (text : Bytes) : trim text = bytes (trimmed text) := rfl

/-- Trimming takes a stretch out of a text, with white space around it. -/
theorem exists_items_eq (text : Bytes) :
    ∃ front back, items text = front ++ trimmed text ++ back ∧
      ∀ item ∈ front ++ back, isBlankItem item = true := by
  have hback : (items text).dropWhile isBlankItem =
      trimmed text ++ ((items text).dropWhile isBlankItem).rtakeWhile isBlankItem := by
    have hreverse := congrArg List.reverse
      (List.takeWhile_append_dropWhile (p := isBlankItem)
        (l := ((items text).dropWhile isBlankItem).reverse))
    rw [List.reverse_append, List.reverse_reverse] at hreverse
    exact hreverse.symm
  refine ⟨(items text).takeWhile isBlankItem,
    ((items text).dropWhile isBlankItem).rtakeWhile isBlankItem, ?_, ?_⟩
  · rw [List.append_assoc, ← hback, List.takeWhile_append_dropWhile]
  · intro item hitem
    rcases List.mem_append.1 hitem with hfront | hlast
    · exact List.mem_takeWhile_imp hfront
    · exact List.mem_rtakeWhile_imp hlast

theorem items_trim (text : Bytes) : items (trim text) = trimmed text := by
  rcases exists_items_eq text with ⟨front, back, hitems, -⟩
  exact items_bytes_of_append hitems

theorem trim_subset (text : Bytes) : trim text ⊆ text := by
  rcases exists_items_eq text with ⟨front, back, hitems, -⟩
  have htext : text = bytes front ++ trim text ++ bytes back := by
    rw [trim_eq, ← bytes_append, ← bytes_append, ← hitems, bytes_items]
  intro b hb
  rw [htext]
  exact List.mem_append_left _ (List.mem_append_right _ hb)

/-- A trimmed text has no white space at its ends. -/
theorem isTrimmed_trim (text : Bytes) : IsTrimmed (trim text) := by
  rw [IsTrimmed, items_trim]
  constructor
  · intro item hitem
    rcases List.rdropWhile_prefix isBlankItem ((items text).dropWhile isBlankItem) with
      ⟨back, hback⟩
    have hhead : ((items text).dropWhile isBlankItem).head? = some item := by
      rw [← hback, List.head?_append]
      exact Option.or_eq_some_iff.2 (.inl hitem)
    have hnot := List.head?_dropWhile_not isBlankItem (items text)
    rw [hhead] at hnot
    exact hnot
  · intro item hitem
    rcases List.mem_getLast?_eq_getLast hitem with ⟨hne, rfl⟩
    exact Bool.eq_false_iff.2 (List.rdropWhile_last_not isBlankItem _ hne)

/-- A text without white space at its ends is left alone. -/
theorem trim_eq_self {text : Bytes} (h : IsTrimmed text) : trim text = text := by
  have hfront : (items text).dropWhile isBlankItem = items text := by
    cases hitems : items text with
    | nil => rfl
    | cons item others =>
        have hitem : isBlankItem item = false := h.1 item (by rw [hitems]; rfl)
        exact List.dropWhile_cons_of_neg (Bool.eq_false_iff.1 hitem)
  have hback : (items text).rdropWhile isBlankItem = items text := by
    refine List.rdropWhile_eq_self_iff.2 ?_
    intro hne
    exact Bool.eq_false_iff.1 (h.2 _ (List.getLast?_eq_some_getLast hne))
  rw [trim_eq, trimmed, hfront, hback, bytes_items]

/-- White space around a text makes no difference to what trimming leaves. -/
theorem trim_of_items {inner text : Bytes} {front back : List Item}
    (h : items text = front ++ items inner ++ back)
    (hblank : ∀ item ∈ front ++ back, isBlankItem item = true) : trim text = trim inner := by
  have hfront : ∀ item ∈ front, isBlankItem item = true :=
    fun item hitem => hblank item (List.mem_append_left back hitem)
  have hback : ∀ item ∈ back, isBlankItem item = true :=
    fun item hitem => hblank item (List.mem_append_right front hitem)
  rw [trim_eq, trim_eq, trimmed, trimmed, h, List.append_assoc, List.dropWhile_append_of_pos hfront,
    List.dropWhile_append]
  split
  · -- Nothing but blanks in the inner text: nothing is left on either side.
    rename_i hempty
    rw [List.isEmpty_iff.1 hempty, List.dropWhile_eq_nil_iff.2 hback]
  · have hreverse : ∀ item ∈ back.reverse, isBlankItem item = true :=
      fun item hitem => hback item (List.mem_reverse.1 hitem)
    rw [List.rdropWhile, List.reverse_append, List.dropWhile_append_of_pos hreverse]
    rfl

theorem trim_cons_blank {b : UInt8} (h : b < 0x80) (hblank : isBlank (Char.ofNat b.toNat) = true)
    (text : Bytes) : trim (b :: text) = trim text := by
  have hitems : items (b :: text) = [.char (Char.ofNat b.toNat)] ++ items text ++ [] := by
    rw [items_cons_ascii h, List.append_nil, List.singleton_append]
  refine trim_of_items hitems fun item hitem => ?_
  cases List.mem_singleton.1 hitem
  exact hblank

theorem trim_append_blank {b : UInt8} (h : b < 0x80) (hblank : isBlank (Char.ofNat b.toNat) = true)
    (text : Bytes) : trim (text ++ [b]) = trim text := by
  have hitems : items (text ++ [b]) = [] ++ items text ++ [.char (Char.ofNat b.toNat)] := by
    rw [items_append_ascii text h, items_cons_ascii h, items_nil, List.nil_append]
  refine trim_of_items hitems fun item hitem => ?_
  cases List.mem_singleton.1 hitem
  exact hblank

/-- A text with white space around an inner text, which has none at its ends. -/
def Padded (inner text : Bytes) : Prop :=
  IsTrimmed inner ∧ ∃ front back, items text = front ++ items inner ++ back ∧
    ∀ item ∈ front ++ back, isBlankItem item = true

theorem trim_eq_iff {text inner : Bytes} : trim text = inner ↔ Padded inner text := by
  constructor
  · rintro rfl
    refine ⟨isTrimmed_trim text, ?_⟩
    rw [items_trim]
    exact exists_items_eq text
  · rintro ⟨hinner, front, back, hitems, hblank⟩
    rw [trim_of_items hitems hblank, trim_eq_self hinner]

end Blank

end Dlx
