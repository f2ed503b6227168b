import Dlx.Assembly.Assemble
import Dlx.Isa.Builtin
import Dlx.Proofs.Sizes
import Dlx.Proofs.Text

/-!
# What string literals denote

A string literal goes through two readers. The scanner finds its end and turns commas and tabs into
blanks; the reader of literals takes it apart later. Both count backslashes on their own, and here
they are shown to agree on every literal that is made of items: plain characters and escapes.

* `Literal.Item`: the items, with what is written for them and what they denote
* `Scanner.foldl_items`: the scanner passes over items inside quotes, and changes no escape
* `Literal.foldlM_items`: the reader takes what the scanner has left of them for the bytes they
  denote
* `StringDirective.assemble_text`: a file with one string directive
* `string_directive_denotes_items`: such a directive has one operand, one element and one row, for
  the denoted bytes
-/

namespace Dlx

namespace Literal

/-! ## Items -/

/-- A hexadecimal digit as it is written, with a letter of either case from ten on. -/
structure HexDigit where
  value : Fin 16
  upper : Bool
  deriving DecidableEq, Repr

/-- The character of a hexadecimal digit. -/
def HexDigit.char (d : HexDigit) : Char :=
  if d.value.val < 10 then Char.ofNat (0x30 + d.value.val)
  else Char.ofNat ((if d.upper then 0x41 else 0x61) + (d.value.val - 10))

/-- The number that hexadecimal digits write. -/
def HexDigit.number (digits : List HexDigit) : Nat :=
  digits.foldl (fun value d => value * 16 + d.value.val) 0

/-- The character of an octal digit. -/
def octalChar (value : Fin 8) : Char :=
  Char.ofNat (0x30 + value.val)

/-- The letters that may follow a backslash, with the bytes that they stand for there. -/
def letters : List (Char × UInt8) :=
  [('a', 7), ('b', 8), ('f', 12), ('n', 10), ('r', 13), ('t', 9), ('v', 11), ('\\', 0x5C),
    ('"', 0x22)]

/-- An escape. -/
inductive Escape where
  /-- A letter. -/
  | letter (c : Char) (b : UInt8) (h : (c, b) ∈ letters)
  /-- A byte with two hexadecimal digits. -/
  | byte (high low : HexDigit)
  /-- A byte with three octal digits. -/
  | octal (high : Fin 4) (middle low : Fin 8)
  /-- A code point with four or eight hexadecimal digits, which is no surrogate. -/
  | point (long : Bool) (digits : List HexDigit) (hlength : digits.length = if long then 8 else 4)
    (hvalid : (HexDigit.number digits).isValidChar)

/-- What is written behind the backslash of an escape. -/
def Escape.text : Escape → List Char
  | .letter c _ _ => [c]
  | .byte high low => 'x' :: [high, low].map HexDigit.char
  | .octal high middle low => [high.castLE (by decide), middle, low].map octalChar
  | .point long digits _ _ => (if long then 'U' else 'u') :: digits.map HexDigit.char

/-- The bytes that an escape denotes. -/
def Escape.denoted : Escape → Bytes
  | .letter _ b _ => [b]
  | .byte high low => [UInt8.ofNat (high.value.val * 16 + low.value.val)]
  | .octal high middle low => [UInt8.ofNat (high.val * 64 + middle.val * 8 + low.val)]
  | .point _ digits _ _ => String.utf8EncodeChar (Char.ofNat (HexDigit.number digits))

/-- An item of a string literal. -/
inductive Item where
  /-- A character that stands for itself. -/
  | plain (c : Char) (h : c ≠ '"' ∧ c ≠ '\\' ∧ c ≠ '\n')
  | escape (e : Escape)

/-- What is written for an item. -/
def Item.written : Item → List Char
  | .plain c _ => [c]
  | .escape e => '\\' :: e.text

/-- The bytes that an item denotes. A comma and a tab denote a blank. -/
def Item.denoted : Item → Bytes
  | .plain c _ => if c = ',' ∨ c = '\t' then [0x20] else String.utf8EncodeChar c
  | .escape e => e.denoted

/-- What is written for items. -/
def written (items : List Item) : List Char :=
  items.flatMap Item.written

/-- The bytes that items denote. -/
def denoted (items : List Item) : Bytes :=
  items.flatMap Item.denoted

/-! ## Escapes in front of the scanner -/

/-- A character that is taken into a literal as it is, and that has no part in where the literal or
its line ends. -/
def IsInert (c : Char) : Prop :=
  c ≠ '"' ∧ c ≠ '\\' ∧ c ≠ '\n' ∧ Scanner.soften c = c

instance (c : Char) : Decidable (IsInert c) :=
  inferInstanceAs (Decidable (_ ∧ _ ∧ _ ∧ _))

theorem HexDigit.inert (d : HexDigit) : IsInert d.char := by
  have hall : ∀ (value : Fin 16) (upper : Bool), IsInert (HexDigit.char ⟨value, upper⟩) := by decide
  exact hall d.value d.upper

theorem inert_octalChar (value : Fin 8) : IsInert (octalChar value) := by
  revert value
  decide

theorem HexDigit.inert_map (digits : List HexDigit) :
    ∀ c ∈ digits.map HexDigit.char, IsInert c := by
  intro c hc
  rcases List.mem_map.1 hc with ⟨d, -, rfl⟩
  exact d.inert

/-- Only the first character of an escape can be a quote or a backslash. -/
theorem Escape.exists_text_eq (e : Escape) :
    ∃ mark rest, e.text = mark :: rest ∧ (mark ≠ '\n' ∧ Scanner.soften mark = mark) ∧
      ∀ c ∈ rest, IsInert c := by
  cases e with
  | letter c b h =>
      have hall : ∀ p ∈ letters, p.1 ≠ '\n' ∧ Scanner.soften p.1 = p.1 := by decide
      exact ⟨c, [], rfl, hall (c, b) h, by simp⟩
  | byte high low => exact ⟨'x', _, rfl, by decide, HexDigit.inert_map _⟩
  | octal high middle low =>
      refine ⟨_, _, rfl, (inert_octalChar _).2.2, ?_⟩
      intro c hc
      rcases List.mem_map.1 hc with ⟨value, -, rfl⟩
      exact inert_octalChar value
  | point long digits hlength hvalid =>
      refine ⟨_, _, rfl, ?_, HexDigit.inert_map digits⟩
      cases long with
      | false => decide
      | true => decide

theorem newline_not_mem_written (items : List Item) : '\n' ∉ written items := by
  intro hmem
  rcases List.mem_flatMap.1 hmem with ⟨item, -, hitem⟩
  cases item with
  | plain c h => exact h.2.2 (List.mem_singleton.1 hitem).symm
  | escape e =>
      rcases e.exists_text_eq with ⟨mark, rest, htext, ⟨hmark, -⟩, hrest⟩
      rw [Item.written, htext] at hitem
      rcases List.mem_cons.1 hitem with hbackslash | htail
      · cases hbackslash
      · rcases List.mem_cons.1 htail with hnewline | hnewline
        · exact hmark hnewline.symm
        · exact (hrest _ hnewline).2.2.1 rfl

end Literal

namespace Scanner

variable (tokens : List (List Char)) (word : List Char)

theorem step_inside {c : Char} (h : c ≠ '"' ∧ c ≠ '\\') :
    step ⟨tokens, word, true, false⟩ c = ⟨tokens, soften c :: word, true, false⟩ := by
  simp [step, h.1, h.2]

theorem foldl_inert {text : List Char} (h : ∀ c ∈ text, Literal.IsInert c) :
    text.foldl step ⟨tokens, word, true, false⟩ = ⟨tokens, text.reverse ++ word, true, false⟩ := by
  induction text generalizing word with
  | nil => rfl
  | cons c rest ih =>
      rcases List.forall_mem_cons.1 h with ⟨⟨hquote, hbackslash, -, hsoft⟩, hrest⟩
      rw [List.foldl_cons, step_inside tokens word ⟨hquote, hbackslash⟩, hsoft, ih _ hrest]
      simp

/-- Behind a backslash the scanner looks at one character only, and the rest of an escape is
inert. -/
theorem foldl_escape (e : Literal.Escape) :
    ('\\' :: e.text).foldl step ⟨tokens, word, true, false⟩ =
      ⟨tokens, ('\\' :: e.text).reverse ++ word, true, false⟩ := by
  rcases e.exists_text_eq with ⟨mark, rest, htext, ⟨-, hsoft⟩, hrest⟩
  have hbackslash : step ⟨tokens, word, true, false⟩ '\\' = ⟨tokens, '\\' :: word, true, true⟩ := by
    simp [step, soften]
  have hmark : step ⟨tokens, '\\' :: word, true, true⟩ mark =
      ⟨tokens, mark :: '\\' :: word, true, false⟩ := by
    simp [step, hsoft]
  rw [htext, List.foldl_cons, hbackslash, List.foldl_cons, hmark, foldl_inert tokens _ hrest]
  simp

/-- No comma and no tab is part of an escape. -/
theorem map_soften_escape (e : Literal.Escape) : ('\\' :: e.text).map soften = '\\' :: e.text := by
  rcases e.exists_text_eq with ⟨mark, rest, htext, ⟨-, hsoft⟩, hrest⟩
  have hbackslash : soften '\\' = '\\' := by decide
  have hmap : rest.map soften = rest :=
    (List.map_congr_left fun c hc => (hrest c hc).2.2.2).trans (List.map_id rest)
  rw [htext, List.map_cons, List.map_cons, hbackslash, hsoft, hmap]

/-- The scanner passes over an item inside quotes, whatever quotes and backslashes are escaped in
it. -/
theorem foldl_item (item : Literal.Item) :
    item.written.foldl step ⟨tokens, word, true, false⟩ =
      ⟨tokens, (item.written.map soften).reverse ++ word, true, false⟩ := by
  cases item with
  | plain c h => exact step_inside tokens word ⟨h.1, h.2.1⟩
  | escape e =>
      rw [Literal.Item.written, map_soften_escape]
      exact foldl_escape tokens word e

theorem foldl_items (items : List Literal.Item) :
    (Literal.written items).foldl step ⟨tokens, word, true, false⟩ =
      ⟨tokens, ((Literal.written items).map soften).reverse ++ word, true, false⟩ := by
  induction items generalizing word with
  | nil => rfl
  | cons item rest ih =>
      have hcons : Literal.written (item :: rest) = item.written ++ Literal.written rest := rfl
      rw [hcons, List.foldl_append, foldl_item, ih]
      simp

end Scanner

/-! ## The reader of literals -/

namespace Literal

/-- Digits are read up to the last one, which completes the value. -/
theorem foldlM_digits {δ : Type} {base : Nat} {char : δ → Char} {value : δ → Nat}
    (h : ∀ d, Numeral.digit? base (char d).toNat = some (value d)) (wide : Bool) (bytes : Bytes)
    (d : δ) (rest : List δ) (start : Nat) :
    ((d :: rest).map char).foldlM advance (.digits base (rest.length + 1) start wide, bytes) =
      (valueBytes? ((d :: rest).foldl (fun number d => number * base + value d) start) wide).map
        (fun denoted => (.plain, denoted.reverse ++ bytes)) := by
  induction rest generalizing d start with
  | nil =>
      cases hvalue : valueBytes? (start * base + value d) wide with
      | none => simp [advance, step, h, hvalue]
      | some denoted => simp [advance, step, h, hvalue, List.reverseAux_eq]
  | cons next rest ih =>
      -- With more digits to come, a digit only goes into the value.
      have hstep : advance (.digits base ((next :: rest).length + 1) start wide, bytes) (char d) =
          some (.digits base (rest.length + 1) (start * base + value d) wide, bytes) := by
        simp [advance, step, h]
      rw [List.map_cons, List.foldlM_cons, hstep, List.foldl_cons]
      exact ih next (start * base + value d)

theorem HexDigit.digit?_char (d : HexDigit) :
    Numeral.digit? 16 d.char.toNat = some d.value.val := by
  have hall : ∀ (value : Fin 16) (upper : Bool),
      Numeral.digit? 16 (HexDigit.char ⟨value, upper⟩).toNat = some value.val := by decide
  exact hall d.value d.upper

theorem digit?_octalChar (value : Fin 8) :
    Numeral.digit? 8 (octalChar value).toNat = some value.val := by
  revert value
  decide

theorem advance_backslash (bytes : Bytes) : advance (.plain, bytes) '\\' = some (.escape, bytes) :=
  rfl

theorem foldlM_escape (e : Escape) (bytes : Bytes) :
    ('\\' :: e.text).foldlM advance (.plain, bytes) =
      some (.plain, e.denoted.reverse ++ bytes) := by
  rw [List.foldlM_cons, advance_backslash]
  show e.text.foldlM advance (.escape, bytes) = _
  cases e with
  | letter c b h =>
      have hall : ∀ p ∈ letters, letterByte? p.1 = some p.2 := by decide
      have hletter : letterByte? c = some b := hall (c, b) h
      simp [Escape.text, Escape.denoted, advance, step, escapeStep, hletter]
  | byte high low =>
      have hmark : advance (.escape, bytes) 'x' = some (.digits 16 2 0 false, bytes) := rfl
      have hvalue : high.value.val * 16 + low.value.val < 256 := by omega
      rw [Escape.text, List.foldlM_cons, hmark]
      refine (foldlM_digits HexDigit.digit?_char false bytes high [low] 0).trans ?_
      simp [valueBytes?, Escape.denoted, hvalue]
  | octal high middle low =>
      -- An octal escape has no mark: its first digit is behind the backslash.
      have hall : ∀ high : Fin 4, escapeStep (octalChar (high.castLE (by decide))) =
          some (.digits 8 2 high.val false, []) := by decide
      have hmark : advance (.escape, bytes) (octalChar (high.castLE (by decide))) =
          some (.digits 8 2 high.val false, bytes) := by
        simp [advance, step, hall]
      have hvalue : (high.val * 8 + middle.val) * 8 + low.val =
          high.val * 64 + middle.val * 8 + low.val := by omega
      have hbound : high.val * 64 + middle.val * 8 + low.val < 256 := by omega
      rw [Escape.text, List.map_cons, List.foldlM_cons, hmark]
      refine (foldlM_digits digit?_octalChar false bytes middle [low] high.val).trans ?_
      simp [valueBytes?, Escape.denoted, hvalue, hbound]
  | point long digits hlength hvalid =>
      have hmark : advance (.escape, bytes) (if long then 'U' else 'u') =
          some (.digits 16 digits.length 0 true, bytes) := by
        rw [hlength]
        cases long with
        | false => rfl
        | true => rfl
      rw [Escape.text, List.foldlM_cons, hmark]
      cases digits with
      | nil =>
          cases long with
          | false => cases hlength
          | true => cases hlength
      | cons d rest =>
          refine (foldlM_digits HexDigit.digit?_char true bytes d rest 0).trans ?_
          have hnumber : (d :: rest).foldl (fun value d => value * 16 + d.value.val) 0 =
              HexDigit.number (d :: rest) := rfl
          simp [valueBytes?, Escape.denoted, hnumber, hvalid]

/-- What the scanner leaves of an item is read as the bytes that the item denotes. -/
theorem foldlM_item (item : Item) (bytes : Bytes) :
    (item.written.map Scanner.soften).foldlM advance (.plain, bytes) =
      some (.plain, item.denoted.reverse ++ bytes) := by
  cases item with
  | plain c h =>
      by_cases hsoft : c = ',' ∨ c = '\t'
      · have hblank : String.utf8EncodeChar ' ' = [0x20] := by decide
        simp [Item.written, Item.denoted, Scanner.soften, hsoft, advance, step, hblank]
      · simp [Item.written, Item.denoted, Scanner.soften, hsoft, advance, step, h,
          List.reverseAux_eq]
  | escape e =>
      rw [Item.written, Scanner.map_soften_escape]
      exact foldlM_escape e bytes

theorem foldlM_items (items : List Item) (bytes : Bytes) :
    ((written items).map Scanner.soften).foldlM advance (.plain, bytes) =
      some (.plain, (denoted items).reverse ++ bytes) := by
  induction items generalizing bytes with
  | nil => rfl
  | cons item rest ih =>
      have hwritten : written (item :: rest) = item.written ++ written rest := rfl
      have hdenoted : denoted (item :: rest) = item.denoted ++ denoted rest := rfl
      rw [hwritten, List.map_append, List.foldlM_append, foldlM_item, hdenoted]
      refine (ih (item.denoted.reverse ++ bytes)).trans ?_
      simp

/-- The operand that the scanner makes of a literal. -/
def operand (items : List Item) : Bytes :=
  0x22 :: (Utf8.encode ((written items).map Scanner.soften) ++ [0x22])

theorem encode_quoted (text : List Char) :
    Utf8.encode ('"' :: (text ++ ['"'])) = 0x22 :: (Utf8.encode text ++ [0x22]) := by
  have hquote : String.utf8EncodeChar '"' = [0x22] := by decide
  simp [Utf8.encode, hquote]

theorem value?_operand (items : List Item) : value? (operand items) = some (denoted items) := by
  have hread : ((written items).map Scanner.soften ++ ['"']).foldlM advance (.plain, []) =
      some (.closed, (denoted items).reverse) := by
    rw [List.foldlM_append, foldlM_items, List.append_nil]
    rfl
  rw [operand, ← encode_quoted, value?, Utf8.chars_encode]
  simp [hread]

end Literal

/-! ## String directives -/

namespace StringDirective

open Literal

/-- The kind of a string directive. -/
def kind (terminated : Bool) : LineKind :=
  if terminated then .asciiz else .ascii

/-- The name of a string directive. -/
def name (terminated : Bool) : Bytes :=
  if terminated then utf8 ".asciiz" else utf8 ".ascii"

/-- The source line of a string directive with one literal. -/
def text (terminated : Bool) (items : List Item) : Bytes :=
  name terminated ++ utf8 " " ++ Utf8.encode ('"' :: (written items ++ ['"']))

/-- The number of bytes that a string directive takes. -/
def size (terminated : Bool) (items : List Item) : Nat :=
  (denoted items).length + terminated.toNat

/-- A string directive with its tokens sorted. -/
def line (terminated : Bool) (items : List Item) (lineno : Int) : Line :=
  { kind := kind terminated
    tokens := [name terminated, operand items]
    mnemonic := name terminated
    operands := [operand items]
    lineno }

/-- The characters in front of a literal, up to its quote. -/
def lead (terminated : Bool) : List Char :=
  (if terminated then ".asciiz" else ".ascii").toList

theorem encode_lead (terminated : Bool) : Utf8.encode (lead terminated) = name terminated := by
  cases terminated with
  | false => decide
  | true => decide

theorem foldl_lead (terminated : Bool) :
    (lead terminated ++ [' ', '"']).foldl Scanner.step .start =
      ⟨[lead terminated], ['"'], true, false⟩ := by
  cases terminated with
  | false => decide
  | true => decide

theorem chars_text (terminated : Bool) (items : List Item) :
    Utf8.chars (text terminated items) = lead terminated ++ [' ', '"'] ++
      (written items ++ ['"']) := by
  have hblank : utf8 " " = Utf8.encode [' '] := by decide
  rw [text, ← encode_lead, hblank, ← Utf8.encode_append, ← Utf8.encode_append, Utf8.chars_encode]
  simp

theorem tokenize_text (terminated : Bool) (items : List Item) :
    tokenize (text terminated items) = [name terminated, operand items] := by
  have hrun : Scanner.run (Utf8.chars (text terminated items)) =
      [lead terminated, '"' :: ((written items).map Scanner.soften ++ ['"'])] := by
    rw [chars_text, Scanner.run, List.foldl_append, foldl_lead, List.foldl_append,
      Scanner.foldl_items]
    simp [Scanner.step, Scanner.flush, Scanner.soften]
  rw [tokenize, hrun, List.map_cons, List.map_cons, List.map_nil, encode_lead, encode_quoted,
    operand]

theorem ofTokens?_text (terminated : Bool) (items : List Item) (lineno : Int) :
    Line.ofTokens? (tokenize (text terminated items)) lineno =
      some (line terminated items lineno) := by
  rw [tokenize_text]
  cases terminated with
  | false => rfl
  | true => rfl

theorem elements_line (terminated : Bool) (items : List Item) (lineno : Int) :
    Directive.elements (line terminated items lineno) =
      .ok [⟨0, UInt32.ofNat (size terminated items), denoted items⟩] := by
  have helement : Directive.element (kind terminated) (operand items) =
      .ok ⟨0, UInt32.ofNat (size terminated items), denoted items⟩ := by
    cases terminated with
    | false => simp [kind, Directive.element, value?_operand, size]
    | true => simp [kind, Directive.element, value?_operand, size]
  rw [Directive.elements, line, List.mapM_cons, helement]
  rfl

/-- A string directive that is placed at an address. -/
def placed (terminated : Bool) (items : List Item) (lineno : Int) (address : UInt32) : Line :=
  { line terminated items lineno with
    address
    elements := [⟨address, UInt32.ofNat (size terminated items), denoted items⟩] }

theorem place_line (c : Cursor) (terminated : Bool) (items : List Item) (lineno : Int) :
    c.place (line terminated items lineno) =
      .ok (c.moveTo (c.next + UInt32.ofNat (size terminated items)),
        some (placed terminated items lineno c.next)) := by
  cases terminated with
  | false =>
      rw [Cursor.place, elements_line]
      rfl
  | true =>
      rw [Cursor.place, elements_line]
      rfl

/-- The digits of bytes in hexadecimal, in lower case. -/
def lowerHex (bytes : Bytes) : Bytes :=
  bytes.flatMap fun b =>
    [(utf8 "0123456789abcdef").getD (b.toNat / 16) 0,
      (utf8 "0123456789abcdef").getD (b.toNat % 16) 0]

theorem hexText_eq_lowerHex (bytes : Bytes) : Directive.hexText bytes = lowerHex bytes := by
  have hall : ∀ b : UInt8, Bytes.hex 2 b.toNat =
      [(utf8 "0123456789abcdef").getD (b.toNat / 16) 0,
        (utf8 "0123456789abcdef").getD (b.toNat % 16) 0] :=
    forall_byte (by decide +kernel)
  exact List.flatMap_congr fun b _ => hall b

/-- The digits that a string directive puts into the output. -/
def digits (terminated : Bool) (items : List Item) : Bytes :=
  lowerHex (denoted items) ++ if terminated then utf8 "00" else []

theorem encodeLine_placed (symbols : SymbolTable) (catalog : Catalog) (terminated : Bool)
    (items : List Item) (lineno : Int) (address : UInt32) :
    encodeLine symbols catalog (placed terminated items lineno address) =
      .ok [⟨address, .text (digits terminated items),
        some (placed terminated items lineno address)⟩] := by
  rw [digits, ← hexText_eq_lowerHex]
  cases terminated with
  | false =>
      simp only [Bool.false_eq_true, ↓reduceIte, List.append_nil]
      rfl
  | true => rfl

/-! ## A file with one string directive -/

theorem ofBytes_text {terminated : Bool} {items : List Item}
    (h : Lines.fits (text terminated items) = true) :
    Lines.ofBytes (text terminated items) = ⟨[text terminated items], false⟩ := by
  have hnewline : (0x0A : UInt8) ∉ text terminated items := by
    intro hmem
    have hchar := Utf8.mem_chars_of_ascii (by decide) hmem
    rw [chars_text] at hchar
    have hlead : '\n' ∉ lead terminated ++ [' ', '"'] := by
      cases terminated with
      | false => decide
      | true => decide
    rcases List.mem_append.1 hchar with hfront | hback
    · exact hlead hfront
    · rcases List.mem_append.1 hback with hitem | hquote
      · exact newline_not_mem_written items hitem
      · cases List.mem_singleton.1 hquote
  -- The line ends in the quote, so no return is dropped from it.
  have hlast : (text terminated items).getLast? = some 0x22 := by
    rw [text, encode_quoted, ← List.cons_append, ← List.append_assoc, List.getLast?_concat]
  have hne : text terminated items ≠ [] := by
    intro hnil
    rw [hnil] at hlast
    cases hlast
  rw [Lines.ofBytes_eq_ofPieces, Lines.pieces_of_not_mem hnewline hne]
  simp [Lines.ofPieces, h, Lines.dropReturn, hlast]

theorem layout_text {terminated : Bool} {items : List Item}
    (h : Lines.fits (text terminated items) = true) (file : Bytes) :
    layout file (text terminated items) = .ok ⟨file, [placed terminated items 1 0]⟩ := by
  have hstep : Layout.Pass.step file .start (text terminated items) =
      .ok ⟨Cursor.start.moveTo (0 + UInt32.ofNat (size terminated items)), 1,
        [placed terminated items 1 0]⟩ := by
    rw [Layout.Pass.step, ofTokens?_text]
    dsimp only [Layout.Pass.start]
    rw [place_line]
    rfl
  rw [layout, Layout.run, ofBytes_text h]
  dsimp only
  rw [runUntil, hstep]
  rfl

theorem assemble_text {terminated : Bool} {items : List Item}
    (h : Lines.fits (text terminated items) = true) (catalog : Catalog) (file : Bytes) :
    assemble catalog file (text terminated items) =
      .ok ⟨⟨file, [placed terminated items 1 0]⟩, .ofLines [placed terminated items 1 0],
        [⟨0, .text (digits terminated items), some (placed terminated items 1 0)⟩]⟩ := by
  have hencode : encode ⟨file, [placed terminated items 1 0]⟩
      (.ofLines [placed terminated items 1 0]) catalog =
      .ok [⟨0, .text (digits terminated items), some (placed terminated items 1 0)⟩] := by
    rw [encode, List.mapM_cons, encodeLineOf, encodeLine_placed]
    rfl
  rw [assemble, layout_text h, ok_bind]
  dsimp only
  rw [hencode]
  rfl

/-- A literal on a line that can be read is far too short for the addresses to wrap. -/
theorem size_lt {terminated : Bool} {items : List Item}
    (h : Lines.fits (text terminated items) = true) :
    size terminated items < 2 ^ 32 := by
  have htext : (text terminated items).length < 65536 := of_decide_eq_true h
  have hoperand : (operand items).length ≤ 4 * (text terminated items).length := by
    apply length_le_of_mem_tokenize
    rw [tokenize_text]
    simp
  have hdenoted := length_value?_le (value?_operand items)
  have hone : terminated.toNat ≤ 1 := Bool.toNat_le terminated
  rw [size]
  omega

end StringDirective

open StringDirective in
/-- A string directive with a literal of any items has one operand, one element and one row,
wherever its line stands. The element takes a byte for each one that the items denote, modulo the
size of the memory, and one more if it is terminated; the row holds the digits of these bytes. On a
line that can be read, no size wraps. -/
theorem string_directive_denotes_items (terminated : Bool) (items : List Literal.Item) :
    (∀ (lineno : Int) (c : Cursor) (symbols : SymbolTable) (catalog : Catalog),
      ∃ line operand cursor placed size,
        Line.ofTokens? (tokenize (text terminated items)) lineno = some line ∧
          line.operands = [operand] ∧
        c.place line = .ok (cursor, some placed) ∧
        placed.elements = [⟨c.next, size, Literal.denoted items⟩] ∧
        size.toNat = ((Literal.denoted items).length + if terminated then 1 else 0) % 2 ^ 32 ∧
        encodeLine symbols catalog placed =
          .ok [⟨c.next,
            .text (lowerHex (Literal.denoted items) ++ if terminated then utf8 "00" else []),
            some placed⟩]) ∧
    (Lines.fits (text terminated items) = true →
      ∀ (catalog : Catalog) (file : Bytes), ∃ result placed size,
        assemble catalog file (text terminated items) = .ok result ∧
          result.program.lines = [placed] ∧
        placed.elements = [⟨0, size, Literal.denoted items⟩] ∧
        size.toNat = (Literal.denoted items).length + (if terminated then 1 else 0) ∧
        result.rows =
          [⟨0, .text (lowerHex (Literal.denoted items) ++ if terminated then utf8 "00" else []),
            some placed⟩]) := by
  have hsize : StringDirective.size terminated items =
      (Literal.denoted items).length + if terminated then 1 else 0 := by
    cases terminated with
    | false => rfl
    | true => rfl
  constructor
  · intro lineno c symbols catalog
    refine ⟨_, _, _, _, _, ofTokens?_text terminated items lineno, rfl,
      place_line c terminated items lineno, rfl, ?_,
      encodeLine_placed symbols catalog terminated items lineno c.next⟩
    rw [UInt32.toNat_ofNat', hsize]
  · intro hfits catalog file
    refine ⟨_, _, _, assemble_text hfits catalog file, rfl, rfl, ?_, rfl⟩
    rw [UInt32.toNat_ofNat_of_lt' (size_lt hfits), hsize]

/-- Plain characters and escapes of every kind: a backslash and a quote that are escaped behind each
other, a comma, a tab, and a code point beyond the first plane. -/
def sampleItems : List Literal.Item :=
  [.escape (.letter '\\' 0x5C (by decide)), .escape (.letter '"' 0x22 (by decide)),
    .plain ',' (by decide), .plain '\t' (by decide), .plain 'é' (by decide),
    .escape (.byte ⟨7, false⟩ ⟨15, true⟩), .escape (.octal 3 7 7),
    .escape (.point true
      [⟨0, false⟩, ⟨0, false⟩, ⟨0, false⟩, ⟨1, false⟩, ⟨15, true⟩, ⟨6, false⟩, ⟨0, false⟩,
        ⟨0, false⟩]
      rfl (by decide))]

theorem sampleItems_denoted :
    StringDirective.text true sampleItems = utf8 ".asciiz \"\\\\\\\",\té\\x7F\\377\\U0001F600\"" ∧
      ∃ result placed, assemble .builtin [] (StringDirective.text true sampleItems) = .ok result ∧
        result.program.lines = [placed] ∧
        result.rows = [⟨0, .text (utf8 "5c222020c3a97ffff09f988000"), some placed⟩] := by
  have hfits : Lines.fits (StringDirective.text true sampleItems) = true := by decide +kernel
  rcases (string_directive_denotes_items true sampleItems).2 hfits .builtin [] with
    ⟨result, placed, size, hresult, hlines, -, -, hrows⟩
  refine ⟨by decide +kernel, result, placed, hresult, hlines, ?_⟩
  rw [hrows]
  have hdigits : (StringDirective.lowerHex (Literal.denoted sampleItems) ++
      if true then utf8 "00" else []) = utf8 "5c222020c3a97ffff09f988000" := by
    decide +kernel
  rw [hdigits]

end Dlx
