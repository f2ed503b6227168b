import Dlx.Assembly.Layout
import Dlx.Proofs.Positional

/-!
# The addresses of sections

A section directive sets the location counter to its operand, a hexadecimal number that may carry a
mark. Marks are taken off one after the other, the lower case one first, and not one or the other: a
numeral with both of them in this order loses both, and is accepted although no hexadecimal number
is written like that. Nothing else slips through.

* `SectionNumeral`: hexadecimal digits behind one mark at most, and `TwiceMarked`, digits behind
  both
* `Cursor.sectionAddress_eq_ok_iff`: these are all the operands that are accepted
* `Cursor.FollowsNumeral`: the rule for section directives, and `section_follows_numeral_iff`, which
  operands it holds for
-/

namespace Dlx

/-! ## Numerals with a mark -/

/-- A numeral for an address: hexadecimal digits, with one mark in front of them at most, for a
number that fits a word. -/
inductive SectionNumeral : Bytes → UInt32 → Prop where
  | plain {digits : Bytes} {address : UInt32} (h : Numeral.Writes 16 digits address.toNat) :
      SectionNumeral digits address
  | marked {mark digits : Bytes} {address : UInt32} (hmark : mark = utf8 "0x" ∨ mark = utf8 "0X")
      (h : Numeral.Writes 16 digits address.toNat) : SectionNumeral (mark ++ digits) address

/-- Hexadecimal digits behind two marks. -/
def TwiceMarked (token : Bytes) (address : UInt32) : Prop :=
  ∃ digits, token = utf8 "0x" ++ (utf8 "0X" ++ digits) ∧ Numeral.Writes 16 digits address.toNat

namespace Cursor

/-- An operand without its marks. -/
def unmarked (token : Bytes) : Bytes :=
  Bytes.dropStart (utf8 "0X") (Bytes.dropStart (utf8 "0x") token)

theorem sectionAddress_cons (token : Bytes) (others : List Bytes) :
    sectionAddress (token :: others) =
      match Numeral.natural 16 32 (unmarked token) with
      | .ok address => .ok address.toUInt32
      | .error _ => .error ⟨.malformedDirective, token⟩ := rfl

/-- The letters of the two marks are no digits. -/
theorem letter_not_mem {digits : Bytes} {n : Nat} (h : Numeral.Writes 16 digits n) {letter : UInt8}
    (hletter : letter = 0x78 ∨ letter = 0x58) : letter ∉ digits := by
  have hall : ∀ letter : UInt8, letter = 0x78 ∨ letter = 0x58 →
      Numeral.digit? 16 letter.toNat = none :=
    forall_byte (by decide +kernel)
  intro hmem
  rcases h.exists_digit letter hmem with ⟨d, hdigit⟩
  have hsome := Numeral.digit?_eq_some_iff.2 hdigit
  rw [hall letter hletter] at hsome
  cases hsome

theorem sectionAddress_eq_ok_iff_writes {token : Bytes} {others : List Bytes} {address : UInt32} :
    sectionAddress (token :: others) = .ok address ↔
      Numeral.Writes 16 (unmarked token) address.toNat := by
  rw [sectionAddress_cons]
  constructor
  · intro h
    split at h
    · rename_i n hn
      cases h
      rwa [← Numeral.natural_eq_word_iff, Numeral.toNat_of_natural hn]
    · cases h
  · intro h
    simp [Numeral.natural_eq_word_iff.2 h]

/-- The operands of a section directive that are accepted. -/
theorem sectionAddress_eq_ok_iff {token : Bytes} {others : List Bytes} {address : UInt32} :
    sectionAddress (token :: others) = .ok address ↔
      SectionNumeral token address ∨ TwiceMarked token address := by
  rw [sectionAddress_eq_ok_iff_writes]
  constructor
  · intro h
    -- Each of the two marks is there or not, which makes four numerals of one and the same number.
    rcases Bytes.dropStart_cases (utf8 "0x") token with hlower | hlower
    · rcases Bytes.dropStart_cases (utf8 "0X") (Bytes.dropStart (utf8 "0x") token) with
        hupper | hupper
      · rw [hupper] at hlower
        exact .inr ⟨_, hlower, h⟩
      · rw [unmarked, hupper] at h
        rw [hlower]
        exact .inl (.marked (.inl rfl) h)
    · rw [unmarked, hlower] at h
      rcases Bytes.dropStart_cases (utf8 "0X") token with hupper | hupper
      · rw [hupper]
        exact .inl (.marked (.inr rfl) h)
      · rw [hupper] at h
        exact .inl (.plain h)
  · have hlower : (0x78 : UInt8) ∈ utf8 "0x" := by decide
    have hupper : (0x58 : UInt8) ∈ utf8 "0X" := by decide
    rintro (h | ⟨digits, rfl, h⟩)
    · cases h with
      | plain h =>
          rwa [unmarked, Bytes.dropStart_of_not_mem hlower (letter_not_mem h (.inl rfl)),
            Bytes.dropStart_of_not_mem hupper (letter_not_mem h (.inr rfl))]
      | marked hmark h =>
          rcases hmark with rfl | rfl
          · rwa [unmarked, Bytes.dropStart_append,
              Bytes.dropStart_of_not_mem hupper (letter_not_mem h (.inr rfl))]
          · have hother : (0x78 : UInt8) ∉ utf8 "0X" := by decide
            rwa [unmarked, Bytes.dropStart_of_not_mem hlower
              (List.not_mem_append hother (letter_not_mem h (.inl rfl))), Bytes.dropStart_append]
    · rwa [unmarked, Bytes.dropStart_append, Bytes.dropStart_append]

theorem sectionAddress_eq_error_iff {token : Bytes} {others : List Bytes} {fault : Fault} :
    sectionAddress (token :: others) = .error fault ↔
      (∀ address, sectionAddress (token :: others) ≠ .ok address) ∧
        fault = ⟨.malformedDirective, token⟩ := by
  rw [sectionAddress_cons]
  split
  · simp
  · simp [eq_comm]

/-- An address is written with letters and digits. -/
theorem isAlphanumeric_of_sectionAddress {token : Bytes} {others : List Bytes} {address : UInt32}
    (h : sectionAddress (token :: others) = .ok address) :
    ∀ b ∈ token, isAlphanumeric b = true := by
  have hlower : ∀ b ∈ utf8 "0x", isAlphanumeric b = true := by decide +kernel
  have hupper : ∀ b ∈ utf8 "0X", isAlphanumeric b = true := by decide +kernel
  rcases sectionAddress_eq_ok_iff.1 h with hnumeral | ⟨digits, rfl, hdigits⟩
  · cases hnumeral with
    | plain hdigits => exact hdigits.isAlphanumeric
    | marked hmark hdigits =>
        refine List.forall_mem_append.2 ⟨?_, hdigits.isAlphanumeric⟩
        rcases hmark with rfl | rfl
        · exact hlower
        · exact hupper
  · exact List.forall_mem_append.2
      ⟨hlower, List.forall_mem_append.2 ⟨hupper, hdigits.isAlphanumeric⟩⟩

end Cursor

/-- Two marks make no numeral. -/
theorem TwiceMarked.not_sectionNumeral {token : Bytes} {address address' : UInt32}
    (h : TwiceMarked token address) :
    ¬ SectionNumeral token address' := by
  rcases h with ⟨digits, htoken, -⟩
  intro hnumeral
  -- With one mark at most, the letter of the other mark would be a digit.
  cases hnumeral with
  | plain hdigits =>
      have hmem : 0x78 ∈ token := by
        rw [htoken]
        exact List.mem_append_left _ (by decide)
      exact Cursor.letter_not_mem hdigits (.inl rfl) hmem
  | @marked mark digits' _ hmark hdigits =>
      rcases hmark with rfl | rfl
      · have hmem : 0x58 ∈ digits' := by
          rw [List.append_cancel_left htoken]
          exact List.mem_append_left _ (by decide)
        exact Cursor.letter_not_mem hdigits (.inr rfl) hmem
      · have hlower : utf8 "0x" = [0x30, 0x78] := by decide
        have hupper : utf8 "0X" = [0x30, 0x58] := by decide
        simp [hlower, hupper] at htoken

/-! ## Placing a section directive -/

/-- A line of a section directive whose operand is a token. -/
structure SectionLine (line : Line) (token : Bytes) : Prop where
  kind : line.kind = .text ∨ line.kind = .data
  operand : line.operands.head? = some token

namespace Cursor

theorem place_section {line : Line} {token : Bytes} (h : SectionLine line token) (c : Cursor) :
    ∃ others, c.place line =
      (sectionAddress (token :: others)).map fun address =>
        (c.moveTo address, placedLabel line address) := by
  rcases List.head?_eq_some_iff.1 h.operand with ⟨others, hoperands⟩
  refine ⟨others, ?_⟩
  rw [← hoperands]
  rcases h.kind with hkind | hkind
  · simp only [place, hkind]
    rfl
  · simp only [place, hkind]
    rfl

/-- The rule for the operand of a section directive: a numeral sets the location counter, and
anything else is refused. -/
structure FollowsNumeral (c : Cursor) (line : Line) (token : Bytes) : Prop where
  placed : ∀ address, SectionNumeral token address →
    c.place line = .ok (c.moveTo address, placedLabel line address) ∧
      (c.moveTo address).next = address
  refused : (∀ address, ¬ SectionNumeral token address) →
    c.place line = .error ⟨.malformedDirective, token⟩

theorem place_section_eq_ok {line : Line} {token : Bytes} (h : SectionLine line token) (c : Cursor)
    {address : UInt32} (haddress : SectionNumeral token address ∨ TwiceMarked token address) :
    c.place line = .ok (c.moveTo address, placedLabel line address) ∧
      (c.moveTo address).next = address := by
  refine ⟨?_, by simp [moveTo, next]⟩
  rcases place_section h c with ⟨others, hplace⟩
  rw [hplace, sectionAddress_eq_ok_iff.2 haddress]
  rfl

theorem place_section_eq_error {line : Line} {token : Bytes} (h : SectionLine line token)
    (c : Cursor) (hnone : ∀ address, ¬ SectionNumeral token address ∧ ¬ TwiceMarked token address) :
    c.place line = .error ⟨.malformedDirective, token⟩ := by
  rcases place_section h c with ⟨others, hplace⟩
  have hrefused : ∀ address, sectionAddress (token :: others) ≠ .ok address := by
    intro address haddress
    rcases sectionAddress_eq_ok_iff.1 haddress with hnumeral | htwice
    · exact (hnone address).1 hnumeral
    · exact (hnone address).2 htwice
  rw [hplace, sectionAddress_eq_error_iff.2 ⟨hrefused, rfl⟩]
  rfl

end Cursor

/-- A section directive follows the rule for its operand exactly when that is not marked twice; a
numeral that is marked twice sets the location counter as well. Where the directive is refused, the
layout of the file stops there, and its state is the one in front of the directive. -/
theorem section_follows_numeral_iff {line : Line} {token : Bytes} (h : SectionLine line token)
    (c : Cursor) :
    (c.FollowsNumeral line token ↔ ∀ address, ¬ TwiceMarked token address) ∧
      (∀ address, TwiceMarked token address →
        c.place line = .ok (c.moveTo address, Cursor.placedLabel line address)) ∧
      ∀ (file raw : Bytes) (p : Layout.Pass) (later : List Bytes) (fault : Fault), p.cursor = c →
        Line.ofTokens? (tokenize raw) (p.lineno + 1 : Nat) = some line →
          c.place line = .error fault →
        runUntil (Layout.Pass.step file) p (raw :: later) =
          (p, some (.at ⟨file, line.lineno, c.next, fault⟩)) := by
  refine ⟨⟨?_, ?_⟩, fun address htwice => (Cursor.place_section_eq_ok h c (.inr htwice)).1, ?_⟩
  · intro hrule address htwice
    have hplaced := (Cursor.place_section_eq_ok h c (.inr htwice)).1
    rw [hrule.refused fun address' => htwice.not_sectionNumeral] at hplaced
    cases hplaced
  · intro hnone
    refine ⟨fun address hnumeral => Cursor.place_section_eq_ok h c (.inl hnumeral), fun hno => ?_⟩
    exact Cursor.place_section_eq_error h c fun address => ⟨hno address, hnone address⟩
  · rintro file raw p later fault rfl hline hplace
    have hstep : Layout.Pass.step file p raw =
        .error (.at ⟨file, line.lineno, p.cursor.next, fault⟩) := by
      simp only [Layout.Pass.step, hline, hplace]
    exact runUntil_eq_error.2 ⟨[], raw, later, rfl, rfl, hstep⟩

/-- The line of a section directive. -/
def sampleSection : Line :=
  { kind := .text, tokens := [utf8 ".text", utf8 "0X040"], lineno := 1, mnemonic := utf8 ".text",
    operands := [utf8 "0X040"] }

theorem sampleSection_follows_numeral :
    SectionLine sampleSection (utf8 "0X040") ∧ SectionNumeral (utf8 "0X040") 0x40 ∧
      Cursor.start.FollowsNumeral sampleSection (utf8 "0X040") := by
  have hline : SectionLine sampleSection (utf8 "0X040") := ⟨.inl rfl, rfl⟩
  have hdigits : Numeral.natural 16 32 (utf8 "040") = .ok 0x40 := by decide +kernel
  have hnumeral : SectionNumeral (utf8 "0X040") 0x40 :=
    .marked (.inr rfl) (Numeral.natural_eq_ok_iff.1 hdigits).1
  refine ⟨hline, hnumeral, (section_follows_numeral_iff hline Cursor.start).1.2 ?_⟩
  exact fun address htwice => htwice.not_sectionNumeral hnumeral

/-- Both marks in front of the digits make no numeral, and the instruction behind the directive is
placed all the same. -/
theorem bothMarks_set_location :
    (∀ address, ¬ SectionNumeral (utf8 "0x0X10") address) ∧
      (layout [] (utf8 ".text 0x0X10\nnop\n")).map (fun program => program.lines.map Line.address) =
        .ok [0x10] := by
  have hdigits : Numeral.natural 16 32 (utf8 "10") = .ok 0x10 := by decide +kernel
  have htwice : TwiceMarked (utf8 "0x0X10") 0x10 :=
    ⟨utf8 "10", rfl, (Numeral.natural_eq_ok_iff.1 hdigits).1⟩
  exact ⟨fun address => htwice.not_sectionNumeral, by decide +kernel⟩

end Dlx
