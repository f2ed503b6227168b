import Dlx.Assembly.Writer
import Dlx.Proofs.Positional
import Dlx.Proofs.Rows

/-!
# Records that read back

Rows are written as a text of records, and the reader of such texts is a program of its own: it cuts
the text into lines, drops what follows a comment mark, trims three times, and cuts at the first
colon. This module says exactly which rows come back as they were written.

* `Record.Clean`: a value without comment marks and newlines, and without blanks at its ends
* `Record.value_of_parse`: whatever is read from the first line of a record is a clean value, so
  that a value which is not clean never reads back, wherever its newlines put the rest of it
* `Record.parse_render_iff`, `Record.parse_render`: the records that read back from their own lines
* `Record.parse_stable_under_render`: what was read once is read again from the line that it is
  written to
* `Record.parseLines_render_iff`, `load_written_rows_iff`: lists of records, and the rows of a
  writer
-/

namespace Dlx

/-! ## Hexadecimal numerals -/

namespace Numeral

theorem digit?_hexDigit {d : Nat} (h : d < 16) : digit? 16 (Bytes.hexDigit d).toNat = some d := by
  have hall : ∀ n : Fin 16, digit? 16 (Bytes.hexDigit n.val).toNat = some n.val := by decide
  exact hall ⟨d, h⟩

/-- The digits of a number read as the number, as long as it is in range. -/
theorem readDigits_hex {bound width value : Nat} (h : value < 16 ^ width) (hbound : value < bound) :
    readDigits 16 bound false 0 (Bytes.hex width value) = .ok value := by
  induction width generalizing value with
  | zero =>
      have hzero : value = 0 := by simpa using h
      rw [hzero]
      rfl
  | succ width ih =>
      have hfront : readDigits 16 bound false 0 (Bytes.hex width (value / 16)) =
          .ok (value / 16) := by
        refine ih ?_ (by omega)
        rw [Nat.pow_succ] at h
        omega
      have hvalue : value / 16 * 16 + value % 16 = value := by omega
      rw [Bytes.hex, readDigits_append, hfront, ok_bind, readDigits, digit?_hexDigit (by omega)]
      simp [hvalue, hbound, readDigits]

end Numeral

theorem readWord_hex8 (word : UInt32) : Record.readWord (hex8 word) = .ok word := by
  have hlt : word.toNat < 2 ^ 32 := UInt32.toNat_lt word
  have hne : (hex8 word).isEmpty = false := by
    rw [List.isEmpty_eq_false_iff, ← List.length_pos_iff, hex8, (isHex_hex 8 word.toNat).length]
    decide
  have hread : Numeral.readDigits 16 (Nat.pow 2 32) false 0 (hex8 word) = .ok word.toNat :=
    Numeral.readDigits_hex hlt hlt
  simp [Record.readWord, Numeral.readNatural, Numeral.natural, hne, hread, Except.mapError]

/-! ## Plain bytes -/

/-- An ASCII byte that is no white space. -/
def IsPlain (b : UInt8) : Prop :=
  b < 0x80 ∧ Blank.isBlank (Char.ofNat b.toNat) = false

theorem isPlain_of_isHexDigit {b : UInt8} (h : isHexDigit b = true) : IsPlain b := by
  have hall : ∀ b : UInt8, isHexDigit b = true →
      b < 0x80 ∧ Blank.isBlank (Char.ofNat b.toNat) = false :=
    forall_byte (by decide +kernel)
  exact hall b h

theorem IsHex.not_mem {count : Nat} {text : Bytes} (h : IsHex count text) {b : UInt8}
    (hb : isHexDigit b = false) : b ∉ text := by
  intro hmem
  rw [List.all_eq_true.1 h.digits b hmem] at hb
  cases hb

theorem isHex_hex8 (word : UInt32) : IsHex 8 (hex8 word) :=
  isHex_hex 8 word.toNat

/-- An address as a digit and more digits. -/
theorem exists_hex8_cons (word : UInt32) :
    ∃ digit digits, hex8 word = digit :: digits ∧ isHexDigit digit = true ∧
      ∀ b ∈ digits, isHexDigit b = true := by
  have hhex := isHex_hex8 word
  cases htext : hex8 word with
  | nil =>
      rw [htext] at hhex
      cases hhex.length
  | cons digit digits =>
      rw [htext] at hhex
      have hall := List.all_eq_true.1 hhex.digits
      exact ⟨digit, digits, rfl, hall digit List.mem_cons_self,
        fun b hb => hall b (List.mem_cons_of_mem digit hb)⟩

namespace Blank

open Utf8

theorem items_of_plain {text : Bytes} (h : ∀ b ∈ text, IsPlain b) :
    ∀ item ∈ items text, isBlankItem item = false := by
  induction text with
  | nil =>
      intro item hitem
      cases hitem
  | cons b rest ih =>
      rw [items_cons_ascii (h b List.mem_cons_self).1]
      intro item hitem
      rcases List.mem_cons.1 hitem with rfl | hrest
      · exact (h b List.mem_cons_self).2
      · exact ih (fun x hx => h x (List.mem_cons_of_mem b hx)) item hrest

theorem isTrimmed_of_plain {text : Bytes} (h : ∀ b ∈ text, IsPlain b) : IsTrimmed text :=
  ⟨fun item hitem => items_of_plain h item (List.mem_of_mem_head? hitem),
    fun item hitem => items_of_plain h item (List.mem_of_mem_getLast? hitem)⟩

/-- Only the two ends of a text matter for trimming. -/
theorem isTrimmed_between {b : UInt8} {middle back : Bytes} (hb : IsPlain b)
    (hmiddle : ∀ x ∈ middle, x < 0x80) (hback : IsTrimmed back) (hne : back ≠ []) :
    IsTrimmed (b :: (middle ++ back)) := by
  have hitems : items (b :: (middle ++ back)) =
      .char (Char.ofNat b.toNat) :: (items middle ++ items back) := by
    rw [items_cons_ascii hb.1, items_append_of_ascii hmiddle]
  have hsome : items back ≠ [] := by
    intro hnil
    have hbytes := bytes_items back
    rw [hnil] at hbytes
    exact hne hbytes.symm
  rw [IsTrimmed, hitems]
  constructor
  · intro item hitem
    cases hitem
    exact hb.2
  · intro item hitem
    refine hback.2 item ?_
    rw [← List.cons_append, List.getLast?_append_of_ne_nil _ hsome] at hitem
    exact hitem

/-- A text that starts with a plain byte is not blank. -/
theorem trim_cons_ne_nil {b : UInt8} (hb : IsPlain b) (rest : Bytes) : trim (b :: rest) ≠ [] := by
  intro hnil
  have hitems := items_trim (b :: rest)
  have hplain : isBlankItem (.char (Char.ofNat b.toNat)) = false := hb.2
  rw [hnil, items_nil, trimmed, items_cons_ascii hb.1,
    List.dropWhile_cons_of_neg (Bool.eq_false_iff.1 hplain)] at hitems
  have hblank := List.rdropWhile_eq_nil_iff.1 hitems.symm _ List.mem_cons_self
  rw [hplain] at hblank
  cases hblank

end Blank

/-! ## One record -/

namespace Record

/-- A value that a record gives back: it holds no comment mark and no newline, and no white space at
its ends. -/
structure Clean (value : Bytes) : Prop where
  noMark : 0x23 ∉ value
  noNewline : 0x0A ∉ value
  trimmed : Blank.IsTrimmed value

theorem clean_of_isHex {count : Nat} {value : Bytes} (h : IsHex count value) : Clean value where
  noMark := h.not_mem (by decide)
  noNewline := h.not_mem (by decide)
  trimmed := Blank.isTrimmed_of_plain fun b hb =>
    isPlain_of_isHexDigit (List.all_eq_true.1 h.digits b hb)

theorem render_eq (r : Record) :
    r.render = hex8 r.address ++ 0x3A :: 0x20 :: (r.value ++ [0x09, 0x23]) := by
  have hcolon : utf8 ": " = [0x3A, 0x20] := by decide
  have hmark : utf8 "\t#" = [0x09, 0x23] := by decide
  simp [render, hcolon, hmark]

theorem render_eq_concat (r : Record) :
    r.render = (hex8 r.address ++ 0x3A :: 0x20 :: (r.value ++ [0x09])) ++ [0x23] := by
  rw [render_eq]
  simp

/-- What trimming leaves in front of the comment mark: the address, the colon, and the value up to
blanks. -/
theorem exists_trim_eq (address : UInt32) {value : Bytes} (h : Blank.IsTrimmed value) :
    ∃ rest, Blank.trim (hex8 address ++ 0x3A :: 0x20 :: (value ++ [0x09])) =
        hex8 address ++ 0x3A :: rest ∧
      Blank.trim rest = value := by
  rcases exists_hex8_cons address with ⟨digit, digits, haddress, hdigit, hdigits⟩
  have htab : Blank.trim (hex8 address ++ 0x3A :: 0x20 :: (value ++ [0x09])) =
      Blank.trim (hex8 address ++ 0x3A :: 0x20 :: value) := by
    have hend := Blank.trim_append_blank (b := 0x09) (by decide) (by decide)
      (hex8 address ++ 0x3A :: 0x20 :: value)
    simpa using hend
  rw [htab]
  by_cases hvalue : value = []
  · -- Without a value the blank behind the colon goes too.
    refine ⟨[], ?_, ?_⟩
    · have hblank :=
        Blank.trim_append_blank (b := 0x20) (by decide) (by decide) (hex8 address ++ [0x3A])
      have hplain : ∀ b ∈ hex8 address ++ [0x3A], IsPlain b := by
        intro b hb
        rcases List.mem_append.1 hb with hmem | hmem
        · exact isPlain_of_isHexDigit (List.all_eq_true.1 (isHex_hex8 address).digits b hmem)
        · rw [List.mem_singleton.1 hmem]
          exact ⟨by decide, by decide⟩
      rw [Blank.trim_eq_self (Blank.isTrimmed_of_plain hplain)] at hblank
      simpa [hvalue] using hblank
    · rw [hvalue]
      rfl
  · refine ⟨0x20 :: value, ?_, ?_⟩
    · have hmiddle : ∀ x ∈ digits ++ [0x3A, 0x20], x < 0x80 := by
        intro x hx
        rcases List.mem_append.1 hx with hmem | hmem
        · exact (isPlain_of_isHexDigit (hdigits x hmem)).1
        · rcases List.mem_cons.1 hmem with rfl | hmem
          · decide
          · rw [List.mem_singleton.1 hmem]
            decide
      have htrimmed := Blank.isTrimmed_between (isPlain_of_isHexDigit hdigit) hmiddle h hvalue
      have htrim := Blank.trim_eq_self htrimmed
      rw [haddress]
      simpa using htrim
    · rw [Blank.trim_cons_blank (by decide) (by decide), Blank.trim_eq_self h]

/-- A value that was read holds no comment mark, has no blanks at its ends, and comes from its
line. -/
theorem value_of_parse {line : Bytes} {r : Record} (h : parse line = .ok r) :
    0x23 ∉ r.value ∧ Blank.IsTrimmed r.value ∧ r.value ⊆ line := by
  unfold parse at h
  split at h
  · cases h
  · rename_i address value hcut
    split at h
    · cases h
    · cases h
      have htext := (Bytes.cut?_eq_some_iff.1 hcut).1
      have hsubset : Blank.trim value ⊆ Bytes.before 0x23 line := by
        refine List.Subset.trans (Blank.trim_subset value) ?_
        refine List.Subset.trans ?_ (Blank.trim_subset _)
        rw [htext]
        exact fun b hb => List.mem_append_right _ (List.mem_cons_of_mem _ hb)
      refine ⟨fun hmem => Bytes.not_mem_before 0x23 line (hsubset hmem), Blank.isTrimmed_trim value,
        ?_⟩
      exact List.Subset.trans hsubset (Bytes.before_subset 0x23 line)

/-- A record reads back exactly when its value could have been read from a line. -/
theorem parse_render_iff (r : Record) :
    parse r.render = .ok r ↔ 0x23 ∉ r.value ∧ Blank.IsTrimmed r.value := by
  constructor
  · intro h
    rcases value_of_parse h with ⟨hmark, htrimmed, -⟩
    exact ⟨hmark, htrimmed⟩
  · rintro ⟨hmark, htrimmed⟩
    have hcolon : (0x3A : UInt8) ∉ hex8 r.address := (isHex_hex8 r.address).not_mem (by decide)
    have hbefore : Bytes.before 0x23 r.render =
        hex8 r.address ++ 0x3A :: 0x20 :: (r.value ++ [0x09]) := by
      rw [render_eq_concat]
      refine Bytes.before_append_mark ?_ []
      have haddress : (0x23 : UInt8) ∉ hex8 r.address := (isHex_hex8 r.address).not_mem (by decide)
      simp [haddress, hmark]
    rcases exists_trim_eq r.address htrimmed with ⟨rest, htrim, hvalue⟩
    have hcut : Bytes.cut? 0x3A (hex8 r.address ++ 0x3A :: rest) = some (hex8 r.address, rest) :=
      Bytes.cut?_eq_some_iff.2 ⟨rfl, hcolon⟩
    have hread : readWord (Blank.trim (hex8 r.address)) = .ok r.address := by
      rw [Blank.trim_eq_self (clean_of_isHex (isHex_hex8 r.address)).trimmed, readWord_hex8]
    rw [parse, hbefore, htrim, hcut]
    simp only [hread, hvalue]

/-- The record of a clean value reads back. -/
theorem parse_render {r : Record} (h : Clean r.value) : parse r.render = .ok r :=
  (parse_render_iff r).2 ⟨h.noMark, h.trimmed⟩

/-- What follows a comment mark is not read. -/
theorem parse_append_comment {line : Bytes} (h : 0x23 ∉ line) (comment : Bytes) :
    parse (line ++ 0x23 :: comment) = parse line := by
  rw [parse, parse, Bytes.before_append_mark h, Bytes.before_of_not_mem h]

/-- Reading is stable: a record that was read, from however odd a line, is read again from the line
that it is written to. Its value has no comment mark and no white space at its ends, and a comment
behind the line changes nothing. -/
theorem parse_stable_under_render {line : Bytes} {r : Record} (h : parse line = .ok r) :
    parse r.render = .ok r ∧ 0x23 ∉ r.value ∧ Blank.IsTrimmed r.value ∧
      (0x23 ∉ line → ∀ comment, parse (line ++ 0x23 :: comment) = .ok r) := by
  rcases value_of_parse h with ⟨hmark, htrimmed, -⟩
  refine ⟨(parse_render_iff r).2 ⟨hmark, htrimmed⟩, hmark, htrimmed, fun hline comment => ?_⟩
  rw [parse_append_comment hline, h]

/-- A line with a short address, wide blanks, a second colon and a newline in its value. -/
def sampleOddLine : Bytes :=
  utf8 "\t1F :\u3000a: b\nc\u00A0 "

theorem sampleOddLine_is_stable :
    parse sampleOddLine = .ok ⟨0x1F, utf8 "a: b\nc"⟩ ∧ 0x23 ∉ sampleOddLine ∧
      parse (utf8 "0000001f: a: b\nc\t#") = .ok ⟨0x1F, utf8 "a: b\nc"⟩ ∧
      parse (sampleOddLine ++ utf8 "# x: y") = .ok ⟨0x1F, utf8 "a: b\nc"⟩ := by
  have hline : parse sampleOddLine = .ok ⟨0x1F, utf8 "a: b\nc"⟩ := by decide +kernel
  have hmark : 0x23 ∉ sampleOddLine := by decide +kernel
  have hcomment : utf8 "# x: y" = 0x23 :: utf8 " x: y" := by decide +kernel
  have hrender : utf8 "0000001f: a: b\nc\t#" = render ⟨0x1F, utf8 "a: b\nc"⟩ := by decide +kernel
  rcases parse_stable_under_render hline with ⟨hstable, -, -, happend⟩
  rw [hcomment, hrender]
  exact ⟨hline, hmark, hstable, happend hmark (utf8 " x: y")⟩

/-! ## A text of records -/

/-- Every record ends one line, whatever newlines its value brings. -/
theorem split_renderAll (records : List Record) :
    Bytes.split 0x0A (renderAll records) = records.flatMap (fun r => Bytes.split 0x0A r.render) ++
      [[]] := by
  have hnewline : utf8 "\n" = [0x0A] := by decide
  induction records with
  | nil => rfl
  | cons r rest ih =>
      have hcons : renderAll (r :: rest) = r.render ++ 0x0A :: renderAll rest := by
        simp [renderAll, hnewline]
      rw [hcons, Bytes.split_append_mark, ih, List.flatMap_cons, List.append_assoc]

theorem pieces_renderAll (records : List Record) :
    Lines.pieces (renderAll records) = records.flatMap (fun r => Bytes.split 0x0A r.render) := by
  simp [Lines.pieces, split_renderAll]

theorem load_eq_ok_iff {text : Bytes} {records : List Record} :
    load text = .ok records ↔
      (∀ piece ∈ Lines.pieces text, piece.length < Lines.limit) ∧
        parseLines ((Lines.pieces text).map Lines.dropReturn) = .ok records := by
  constructor
  · intro h
    unfold load at h
    cases hparse : parseLines (Lines.ofBytes text).lines with
    | error e => simp [hparse] at h
    | ok parsed =>
        cases hlong : (Lines.ofBytes text).overlong with
        | true => simp [hparse, hlong] at h
        | false =>
            have hfits := Lines.overlong_eq_false_iff.1 hlong
            have hsame : parsed = records := by simpa [hparse, hlong] using h
            rw [Lines.lines_of_fits hfits, hsame] at hparse
            exact ⟨hfits, hparse⟩
  · rintro ⟨hfits, hparse⟩
    simp [load, Lines.lines_of_fits hfits, hparse, Lines.overlong_eq_false_iff.2 hfits]

/-! ## Lists of records -/

/-- The first line of a record, which holds all of it unless the value brings a newline. -/
def firstLine (r : Record) : Bytes :=
  Lines.dropReturn (Bytes.before 0x0A r.render)

theorem exists_dropReturn_cons {b : UInt8} (h : b ≠ 0x0D) (rest : Bytes) :
    ∃ rest', Lines.dropReturn (b :: rest) = b :: rest' := by
  unfold Lines.dropReturn
  split
  · rename_i hlast
    cases rest with
    | nil =>
        cases hlast
        exact absurd rfl h
    | cons x rest => exact ⟨(x :: rest).dropLast, rfl⟩
  · exact ⟨rest, rfl⟩

/-- The first line of a record is never skipped: it starts with the address. -/
theorem trim_firstLine_ne_nil (r : Record) : Blank.trim r.firstLine ≠ [] := by
  rcases exists_hex8_cons r.address with ⟨digit, digits, haddress, hdigit, -⟩
  have hnewline : digit ≠ 0x0A := fun heq => by rw [heq] at hdigit; cases hdigit
  have hreturn : digit ≠ 0x0D := fun heq => by rw [heq] at hdigit; cases hdigit
  have hbefore : Bytes.before 0x0A r.render =
      digit :: Bytes.before 0x0A (digits ++ 0x3A :: 0x20 :: (r.value ++ [0x09, 0x23])) := by
    rw [render_eq, haddress, List.cons_append, Bytes.before,
      List.takeWhile_cons_of_pos (by simpa using hnewline)]
    rfl
  rcases exists_dropReturn_cons hreturn
    (Bytes.before 0x0A (digits ++ 0x3A :: 0x20 :: (r.value ++ [0x09, 0x23]))) with ⟨rest, hrest⟩
  rw [firstLine, hbefore, hrest]
  exact Blank.trim_cons_ne_nil (isPlain_of_isHexDigit hdigit) rest

/-- A clean value keeps its record on one line. -/
theorem lines_of_clean {r : Record} (h : Clean r.value) :
    Bytes.split 0x0A r.render = [r.render] ∧ r.firstLine = r.render := by
  have hnone : (0x0A : UInt8) ∉ r.render := by
    have haddress : (0x0A : UInt8) ∉ hex8 r.address := (isHex_hex8 r.address).not_mem (by decide)
    rw [render_eq]
    simp [haddress, h.noNewline]
  refine ⟨Bytes.split_of_not_mem hnone, ?_⟩
  have hlast : r.render.getLast? = some 0x23 := by
    rw [render_eq_concat, List.getLast?_concat]
  rw [firstLine, Bytes.before_of_not_mem hnone, Lines.dropReturn, hlast, if_neg (by decide)]

/-- The first line of a record gives the record back exactly when its value is clean. -/
theorem parse_firstLine_iff (r : Record) : parse r.firstLine = .ok r ↔ Clean r.value := by
  constructor
  · intro h
    rcases value_of_parse h with ⟨hmark, htrimmed, hsubset⟩
    refine ⟨hmark, fun hmem => ?_, htrimmed⟩
    exact Bytes.not_mem_before 0x0A r.render ((Lines.dropReturn_isPrefix _).subset (hsubset hmem))
  · intro h
    rw [(lines_of_clean h).2, parse_render h]

theorem parseLines_cons {line : Bytes} (h : Blank.trim line ≠ []) (lines : List Bytes) (r : Record)
    (records : List Record) :
    parseLines (line :: lines) = .ok (r :: records) ↔
      parse line = .ok r ∧ parseLines lines = .ok records := by
  have hkeep : (!(Blank.trim line).isEmpty) = true := by simpa using h
  rw [parseLines, List.filter_cons, if_pos hkeep, mapM_eq_ok, List.forall₂_cons, ← mapM_eq_ok]
  rfl

/-- A list of records reads back exactly when all its values are clean. The first record decides on
the lines of the others: once it has read back, it has taken exactly its own. -/
theorem parseLines_render_iff (records : List Record) :
    parseLines ((records.flatMap fun r => Bytes.split 0x0A r.render).map Lines.dropReturn) =
        .ok records ↔
      ∀ r ∈ records, Clean r.value := by
  induction records with
  | nil =>
      constructor
      · intro _ r hr
        cases hr
      · intro _
        rfl
  | cons r rest ih =>
      rcases Bytes.exists_split_eq 0x0A r.render with ⟨others, hothers⟩
      rw [List.flatMap_cons, hothers, List.cons_append, List.map_cons, ← firstLine,
        parseLines_cons r.trim_firstLine_ne_nil, parse_firstLine_iff]
      constructor
      · rintro ⟨hclean, hrest⟩
        have hnone : others = [] := by
          have hsplit := hothers.symm.trans (lines_of_clean hclean).1
          exact (List.cons.inj hsplit).2
        rw [hnone, List.nil_append, ih] at hrest
        intro r' hr'
        rcases List.mem_cons.1 hr' with rfl | hmem
        · exact hclean
        · exact hrest r' hmem
      · intro hall
        have hclean : Clean r.value := hall r List.mem_cons_self
        have hnone : others = [] := by
          have hsplit := hothers.symm.trans (lines_of_clean hclean).1
          exact (List.cons.inj hsplit).2
        refine ⟨hclean, ?_⟩
        rw [hnone, List.nil_append, ih]
        exact fun r' hr' => hall r' (List.mem_cons_of_mem r hr')

end Record

/-! ## The rows of a writer -/

namespace RowWriter

/-- A sink that takes everything and keeps it. -/
def keeping (kept piece : Bytes) : Bytes × Option Unit :=
  (kept ++ piece, none)

theorem writeAll_text {σ ε : Type} (sink : σ → Bytes → σ × Option ε) (b : Buffered σ)
    (rows : List Row) :
    (text sink).writeAll b rows =
      (text sink).flush { b with held := (rows.map Row.renderLine).reverse ++ b.held } := by
  induction rows generalizing b with
  | nil => rfl
  | cons row rest ih =>
      have hstep : (text sink).writeAll b (row :: rest) =
          (text sink).writeAll { b with held := row.renderLine :: b.held } rest := rfl
      rw [hstep, ih]
      simp

/-- What a text writer has given to its sink when it is done: the records of the rows, a line
each. -/
theorem writeAll_keeping (rows : List Row) :
    (text keeping).writeAll ⟨[], []⟩ rows = (⟨[], Row.renderAll rows⟩, none) := by
  have hall : (rows.map Row.renderLine).flatten = Row.renderAll rows := by
    rw [Row.renderAll, Record.renderAll, List.flatMap_map, List.flatMap_def]
    rfl
  rw [writeAll_text]
  cases rows with
  | nil => rfl
  | cons row rest =>
      have hheld : ((row :: rest).map Row.renderLine).reverse.isEmpty = false := by simp
      simp only [text, keeping, List.append_nil, hheld, Bool.false_eq_true, ↓reduceIte,
        List.reverse_reverse, hall, List.nil_append]

end RowWriter

namespace Row

theorem word_record {row : Row} {word : UInt32} (h : row.content = .word word) :
    row.record.word = .ok word := by
  have hvalue : row.record.value = hex8 word := by simp [record, value, h]
  rw [Record.word, hvalue, if_pos (isHex_hex8 word).length, readWord_hex8]

theorem clean_record_iff (row : Row) :
    Record.Clean row.record.value ↔ ∀ text, row.content = .text text → Record.Clean text := by
  cases hcontent : row.content with
  | word word =>
      have hvalue : row.record.value = hex8 word := by simp [record, value, hcontent]
      rw [hvalue]
      exact ⟨fun _ text htext => (by cases htext), fun _ => Record.clean_of_isHex (isHex_hex8 word)⟩
  | text text =>
      have hvalue : row.record.value = text := by simp [record, value, hcontent]
      rw [hvalue]
      constructor
      · intro hclean text' htext
        cases htext
        exact hclean
      · intro hall
        exact hall text rfl

end Row

/-- Clean records are read back exactly when they fit into the reader's lines. -/
theorem Record.load_renderAll_iff (records : List Record) :
    Record.load (Record.renderAll records) = .ok records ↔
      ∀ r ∈ records, r.render.length < Lines.limit ∧ Record.Clean r.value := by
  rw [Record.load_eq_ok_iff, Record.pieces_renderAll, Record.parseLines_render_iff]
  -- A clean record is one piece, so the lengths of the pieces are those of the records.
  have hpiece : ∀ {r : Record}, Record.Clean r.value → Bytes.split 0x0A r.render = [r.render] :=
    fun hclean => (Record.lines_of_clean hclean).1
  constructor
  · rintro ⟨hfits, hclean⟩ r hr
    refine ⟨hfits r.render (List.mem_flatMap.2 ⟨r, hr, ?_⟩), hclean r hr⟩
    rw [hpiece (hclean r hr)]
    exact List.mem_singleton_self _
  · intro hall
    refine ⟨fun piece hmem => ?_, fun r hr => (hall r hr).2⟩
    rcases List.mem_flatMap.1 hmem with ⟨r, hr, hpart⟩
    rw [hpiece (hall r hr).2, List.mem_singleton] at hpart
    rw [hpart]
    exact (hall r hr).1

/-- Rows that are written as text read back, in order and as they were, exactly when every record is
at most 65535 bytes long and the text of every row that holds no word has no comment mark, no
newline and no white space at its ends. The record of a word reads as that word. -/
theorem load_written_rows_iff (rows : List Row) :
    ∃ text : Bytes, (RowWriter.text RowWriter.keeping).writeAll ⟨[], []⟩ rows = (⟨[], text⟩, none) ∧
      (Record.load text = .ok (rows.map Row.record) ↔
        ∀ row ∈ rows, row.render.length ≤ 65535 ∧
          ∀ value, row.content = .text value →
            0x23 ∉ value ∧ 0x0A ∉ value ∧ Blank.IsTrimmed value) ∧
      ∀ row ∈ rows, ∀ word, row.content = .word word → row.record.word = .ok word := by
  refine ⟨Row.renderAll rows, RowWriter.writeAll_keeping rows, ?_,
    fun row _ word => Row.word_record⟩
  have hlimit : ∀ row : Row, row.record.render.length < Lines.limit ↔ row.render.length ≤ 65535 :=
    fun row => Nat.lt_succ_iff
  have hclean : ∀ value, Record.Clean value ↔ 0x23 ∉ value ∧ 0x0A ∉ value ∧ Blank.IsTrimmed value :=
    fun value => ⟨fun h => ⟨h.noMark, h.noNewline, h.trimmed⟩, fun h => ⟨h.1, h.2.1, h.2.2⟩⟩
  rw [Row.renderAll, Record.load_renderAll_iff, List.forall_mem_map]
  refine forall₂_congr fun row _ => and_congr (hlimit row) ((Row.clean_record_iff row).trans ?_)
  exact forall₂_congr fun value _ => hclean value

end Dlx
