import Dlx.Assembly.Operand
import Dlx.Proofs.Labels
import Dlx.Proofs.Positional

/-!
# Number literals and labels

An operand that is a number is written in one of two ways. Instructions take literals that carry
their base, with a sign and with underscores; the word directive takes hexadecimal digits behind
`0x` and a minus sign at most, or a signed decimal number, and a hexadecimal literal may fill all of
its 64 bits. Both try a number first and a label then.

* `Numeral.literal_eq`: without underscores, a literal is the digits behind its mark
* `Operand.wordLiteral?`: the literals of the word directive, as integers
* `Operand.literal?_eq_wordLiteral?`: a token that is a literal of both kinds is the same number,
  unless it has leading zeros, which make it octal for instructions only
* `SymbolTable.isLabelName_of_resolve?`: what a table can resolve is spelled like a label, and hence
  is no number
* `numerals_agree_apart_from_labels`: the two together
-/

namespace Dlx

/-! ## Digits -/

namespace Numeral

theorem exists_digit_of_readDigits {base bound value result : Nat} {text : Bytes}
    (h : readDigits base bound false value text = .ok result) :
    ∀ b ∈ text, ∃ d, digit? base b.toNat = some d := by
  intro b hb
  rcases underscore_or_digit_of_readDigits h b hb with ⟨hseparated, -⟩ | hdigit
  · cases hseparated
  · exact hdigit

theorem isAlphanumeric_of_readDigits {base bound value result : Nat} {text : Bytes}
    (h : readDigits base bound false value text = .ok result) :
    ∀ b ∈ text, isAlphanumeric b = true := by
  intro b hb
  rcases exists_digit_of_readDigits h b hb with ⟨d, hdigit⟩
  exact (digit?_eq_some_iff.1 hdigit).1.isAlphanumeric

theorem underscore_not_mem {text : Bytes} (h : ∀ b ∈ text, isAlphanumeric b = true) :
    underscore ∉ text := by
  intro hmem
  exact absurd (h underscore hmem) (by decide)

/-- Where there are no underscores it does not matter whether they may separate digits. -/
theorem readDigits_of_not_mem {base bound value : Nat} {text : Bytes} (h : underscore ∉ text) :
    readDigits base bound true value text = readDigits base bound false value text := by
  induction text generalizing value with
  | nil => rfl
  | cons b rest ih =>
      have hb : (b == underscore) = false := by
        have hne : b ≠ underscore := fun heq => h (heq ▸ List.mem_cons_self)
        simpa using hne
      have hrest : underscore ∉ rest := fun hmem => h (List.mem_cons_of_mem b hmem)
      simp only [readDigits, hb, Bool.and_false, ih hrest]

/-! ## Literals that carry their base -/

theorem baseOf_subset (text : Bytes) : (baseOf text).2 ⊆ text := by
  unfold baseOf
  split
  · split
    all_goals simp
  · simp
  · simp

/-- Without underscores, a literal is the digits behind its mark. -/
theorem literal_eq {bits : Nat} {text : Bytes} (hne : text ≠ []) (h : underscore ∉ text) :
    literal bits text = readDigits (baseOf text).1 (Nat.pow 2 bits) false 0 (baseOf text).2 := by
  have hempty : text.isEmpty = false := by simpa using hne
  have hnone : text.contains underscore = false := by simpa using h
  rw [literal, hempty, if_neg Bool.false_ne_true]
  dsimp only
  rw [readDigits_of_not_mem fun hmem => h (baseOf_subset text hmem), hnone]
  cases readDigits (baseOf text).1 (Nat.pow 2 bits) false 0 (baseOf text).2 with
  | error flaw => rfl
  | ok value => rfl

theorem baseOf_of_ne {b : UInt8} (h : b ≠ 0x30) (rest : Bytes) :
    baseOf (b :: rest) = (10, b :: rest) := by
  unfold baseOf
  split
  · rename_i heq
    exact absurd (List.cons.inj heq).1 h
  · rename_i heq
    exact absurd (List.cons.inj heq).1 h
  · rfl

/-- A zero in front of a digit is the mark of octal numbers. -/
theorem baseOf_of_digit {d : UInt8} (h : markLetter? d = none) (rest : Bytes) :
    baseOf (0x30 :: d :: rest) = (8, d :: rest) := by
  cases rest with
  | nil => rfl
  | cons e rest => simp [baseOf, h]

/-! ## Signs -/

theorem withSign_eq_ok {bits : Nat} {magnitude : Bytes → Except Flaw Nat} {text : Bytes}
    {value : Int} (h : withSign bits magnitude text = .ok value) :
    ∃ n, magnitude (dropSign text) = .ok n ∧ value = signed (text.head? == some 0x2D) n := by
  rw [withSign_eq] at h
  rcases bind_eq_ok.1 h with ⟨n, hn, hvalue⟩
  exact ⟨n, hn, (bounded_eq_ok_iff.1 hvalue).1⟩

/-! ## Leading zeros -/

/-- The number that decimal digits write when they are read to a base. -/
def number (base : Nat) (digits : Bytes) : Nat :=
  digits.foldl (fun value b => value * base + (b.toNat - 0x30)) 0

/-- A token that is an optional sign and two or more decimal digits, of which the first is a
zero. -/
structure Padded (token digits : Bytes) : Prop where
  sign : token = digits ∨ token = 0x2B :: digits ∨ token = 0x2D :: digits
  length : 2 ≤ digits.length
  zero : digits.head? = some 0x30
  decimal : ∀ b ∈ digits, 0x30 ≤ b ∧ b ≤ 0x39

theorem padded_iff {token digits : Bytes} :
    ((token = digits ∨ token = 0x2B :: digits ∨ token = 0x2D :: digits) ∧ 2 ≤ digits.length ∧
        digits.head? = some 0x30 ∧ digits.all (fun b => 0x30 ≤ b && b ≤ 0x39) = true) ↔
          Padded token digits := by
  simp only [List.all_eq_true, Bool.and_eq_true, decide_eq_true_eq]
  constructor
  · rintro ⟨sign, length, zero, decimal⟩
    exact ⟨sign, length, zero, decimal⟩
  · intro h
    exact ⟨h.sign, h.length, h.zero, h.decimal⟩

instance (token digits : Bytes) : Decidable (Padded token digits) :=
  decidable_of_iff _ padded_iff

theorem digit?_of_decimal {base : Nat} {b : UInt8} (h : 0x30 ≤ b ∧ b ≤ 0x39) {d : Nat}
    (hdigit : digit? base b.toNat = some d) : d = b.toNat - 0x30 := by
  have hall : ∀ b : UInt8, 0x30 ≤ b ∧ b ≤ 0x39 → digitOf? b.toNat = some (b.toNat - 0x30) :=
    forall_byte (by decide +kernel)
  have hvalue := (Option.filter_eq_some_iff.1 hdigit).1
  rw [hall b h] at hvalue
  exact (Option.some.inj hvalue).symm

theorem decimal_of_digit? {b : UInt8} {d : Nat} (h : digit? 10 b.toNat = some d) :
    0x30 ≤ b ∧ b ≤ 0x39 := by
  have hall : ∀ b : UInt8, (digit? 10 b.toNat).isSome = true → 0x30 ≤ b ∧ b ≤ 0x39 :=
    forall_byte (by decide +kernel)
  exact hall b (by rw [h]; rfl)

theorem decimal_of_readDigits {bound value result : Nat} {text : Bytes}
    (h : readDigits 10 bound false value text = .ok result) : ∀ b ∈ text, 0x30 ≤ b ∧ b ≤ 0x39 := by
  intro b hb
  rcases exists_digit_of_readDigits h b hb with ⟨d, hdigit⟩
  exact decimal_of_digit? hdigit

theorem eq_foldl_of_readDigits {base bound value result : Nat} {text : Bytes}
    (h : readDigits base bound false value text = .ok result)
    (hdecimal : ∀ b ∈ text, 0x30 ≤ b ∧ b ≤ 0x39) :
    result = text.foldl (fun value b => value * base + (b.toNat - 0x30)) value := by
  induction text generalizing value with
  | nil =>
      cases h
      rfl
  | cons first rest ih =>
      rcases List.forall_mem_cons.1 hdecimal with ⟨hfirst, hothers⟩
      rcases readDigits_cons_eq_ok.1 h with ⟨d, hdigit, -, hrest⟩
      rw [ih hrest hothers, digit?_of_decimal hfirst hdigit, List.foldl_cons]

theorem alphanumeric_of_decimal {text : Bytes} (h : ∀ b ∈ text, 0x30 ≤ b ∧ b ≤ 0x39) :
    ∀ b ∈ text, isAlphanumeric b = true := by
  intro b hb
  simp [isAlphanumeric, h b hb]

namespace Padded

variable {token digits : Bytes}

theorem exists_eq (h : Padded token digits) : ∃ d rest, digits = 0x30 :: d :: rest := by
  match digits, h.length, h.zero with
  | _ :: d :: rest, _, rfl => exact ⟨d, rest, rfl⟩

theorem dropSign_eq (h : Padded token digits) : dropSign token = digits := by
  rcases h.exists_eq with ⟨d, rest, rfl⟩
  rcases h.sign with rfl | rfl | rfl
  · rfl
  · rfl
  · rfl

/-- Leading zeros make a literal octal. -/
theorem literal_eq_ok (h : Padded token digits) {bits n : Nat} (hn : literal bits digits = .ok n) :
    n = number 8 digits := by
  rcases h.exists_eq with ⟨d, rest, rfl⟩
  have hrest : ∀ b ∈ d :: rest, 0x30 ≤ b ∧ b ≤ 0x39 :=
    fun b hb => h.decimal b (List.mem_cons_of_mem _ hb)
  have hmark : ∀ b : UInt8, 0x30 ≤ b ∧ b ≤ 0x39 → markLetter? b = none :=
    forall_byte (by decide +kernel)
  have hunderscore := underscore_not_mem (alphanumeric_of_decimal h.decimal)
  rw [literal_eq (List.cons_ne_nil _ _) hunderscore,
    baseOf_of_digit (hmark d (hrest d List.mem_cons_self))] at hn
  -- The zero in front adds nothing to the digits behind it.
  exact (eq_foldl_of_readDigits hn hrest :)

/-- In a decimal number they say nothing. -/
theorem natural_eq_ok (h : Padded token digits) {bits n : Nat}
    (hn : natural 10 bits digits = .ok n) :
    n = number 10 digits :=
  eq_foldl_of_readDigits (Numeral.natural_eq_ok hn).2 h.decimal

end Padded

/-- Without leading zeros a decimal number is a literal, and the same number. -/
theorem literal_of_natural {bits n : Nat} {token : Bytes}
    (hn : natural 10 bits (dropSign token) = .ok n) (hpadded : ¬ ∃ digits, Padded token digits) :
    literal bits (dropSign token) = .ok n := by
  rcases natural_eq_ok hn with ⟨hne, hread⟩
  have hdecimal := decimal_of_readDigits hread
  rw [literal_eq hne (underscore_not_mem (alphanumeric_of_decimal hdecimal))]
  cases hdigits : dropSign token with
  | nil => exact absurd hdigits hne
  | cons b rest =>
      by_cases hzero : b = 0x30
      · cases rest with
        | nil =>
            -- A zero alone counts as octal, with no digits behind its mark.
            rw [hdigits, hzero] at hread
            rcases readDigits_cons_eq_ok.1 hread with ⟨d, hdigit, -, hrest⟩
            rw [hzero, ← hrest]
            cases hdigit
            rfl
        | cons d rest =>
            refine absurd ⟨dropSign token, eq_sign_dropSign token, ?_, ?_, hdecimal⟩ hpadded
            · simp [hdigits]
            · simp [hdigits, hzero]
      · rw [baseOf_of_ne hzero, ← hdigits]
        exact hread

/-- Hexadecimal digits behind their mark are a literal, and the same number. -/
theorem literal_of_hex {bits n : Nat} {mark : UInt8} (hmark : mark = 0x78 ∨ mark = 0x58)
    {digits : Bytes} (hn : natural 16 bits digits = .ok n) :
    literal bits (0x30 :: mark :: digits) = .ok n := by
  rcases natural_eq_ok hn with ⟨hne, hread⟩
  have hnone : underscore ∉ 0x30 :: mark :: digits := by
    have hdigits := underscore_not_mem (isAlphanumeric_of_readDigits hread)
    rcases hmark with rfl | rfl
    · simpa [underscore] using hdigits
    · simpa [underscore] using hdigits
  rw [literal_eq (List.cons_ne_nil _ _) hnone]
  cases digits with
  | nil => exact absurd rfl hne
  | cons d rest =>
      rcases hmark with rfl | rfl
      · exact hread
      · exact hread

end Numeral

/-! ## The two readers of numbers -/

theorem Bytes.dropStart_minus (text : Bytes) :
    dropStart (utf8 "-") text = if text.head? = some 0x2D then text.tail else text := by
  have hminus : utf8 "-" = [0x2D] := by decide
  rw [dropStart, hminus]
  cases text with
  | nil => rfl
  | cons b rest =>
      by_cases hb : b = 0x2D
      · simp [hb]
      · have hne : 0x2D ≠ b := fun heq => hb heq.symm
        simp [hb, hne]

namespace Operand

theorem wordOfInt_toNat (word : UInt32) : wordOfInt word.toNat = word := by
  have hlt : word.toNat < 0x100000000 := word.toNat_lt
  have hmod : ((word.toNat : Int) % 0x100000000).toNat = word.toNat := by omega
  rw [wordOfInt, hmod, Nat.toUInt32_eq, UInt32.ofNat_toNat]

/-- A number literal of the word directive: hexadecimal digits after `0x` with an optional minus
sign, or a signed decimal number. -/
def wordLiteral? (token : Bytes) : Option Int :=
  match hexDigits? (Bytes.dropStart (utf8 "-") token) with
  | some hex =>
      (Numeral.natural 16 64 hex).toOption.map (Numeral.signed (token.head? == some 0x2D) ·)
  | none => (Numeral.integer 10 64 token).toOption

theorem hexDigits?_eq_some {text hex : Bytes} (h : hexDigits? text = some hex) :
    ∃ mark, (mark = 0x78 ∨ mark = 0x58) ∧ text = 0x30 :: mark :: hex := by
  unfold hexDigits? at h
  split at h
  · cases h
    exact ⟨0x78, .inl rfl, rfl⟩
  · cases h
    exact ⟨0x58, .inr rfl, rfl⟩
  · cases h

/-- In front of a hexadecimal mark, the sign that is dropped is the only one there can be. -/
theorem dropSign_of_hexDigits? {token hex : Bytes}
    (h : hexDigits? (Bytes.dropStart (utf8 "-") token) = some hex) :
    Numeral.dropSign token = Bytes.dropStart (utf8 "-") token := by
  rcases hexDigits?_eq_some h with ⟨mark, -, heq⟩
  rw [heq]
  -- A minus sign has been dropped, or the token starts with the zero of the mark.
  rw [Bytes.dropStart_minus] at heq
  split at heq
  · rename_i hhead
    cases token with
    | nil => cases hhead
    | cons b rest =>
        cases hhead
        exact heq
  · rw [heq]
    rfl

theorem length_dropStart_lt_iff (token : Bytes) :
    (Bytes.dropStart (utf8 "-") token).length < token.length ↔ token.head? = some 0x2D := by
  rw [Bytes.dropStart_minus]
  cases token with
  | nil => simp
  | cons b rest =>
      by_cases hb : b = 0x2D
      · simp [hb]
      · simp [hb]

/-- The operand of a word directive is a literal or else a label, except that what starts like a
hexadecimal number is never taken for a label. -/
theorem word_eq (symbols : SymbolTable) (token : Bytes) :
    word symbols token =
      match wordLiteral? token with
      | some value => .ok (wordOfInt value)
      | none =>
        match if (hexDigits? (Bytes.dropStart (utf8 "-") token)).isSome then none
          else symbols.resolve? token with
        | some address => .ok address
        | none => .error ⟨.malformedDirective, token⟩ := by
  rw [word, wordLiteral?]
  cases hexDigits? (Bytes.dropStart (utf8 "-") token) with
  | none =>
      dsimp only
      cases Numeral.integer 10 64 token with
      | error flaw => rfl
      | ok value => rfl
  | some hex =>
      dsimp only
      cases Numeral.natural 16 64 hex with
      | error flaw => rfl
      | ok n =>
          simp only [length_dropStart_lt_iff, Except.toOption, Option.map_some, Numeral.signed,
            beq_iff_eq]

theorem literal?_eq_some {token : Bytes} {value : Int} (h : literal? token = some value) :
    ∃ n, Numeral.literal 64 (Numeral.dropSign token) = .ok n ∧
      value = Numeral.signed (token.head? == some 0x2D) n :=
  Numeral.withSign_eq_ok (toOption_eq_some.1 h)

/-- A literal of the word directive is hexadecimal digits behind their mark, or decimal digits. -/
theorem wordLiteral?_eq_some {token : Bytes} {value : Int} (h : wordLiteral? token = some value) :
    ∃ n, value = Numeral.signed (token.head? == some 0x2D) n ∧
      ((∃ mark hex, (mark = 0x78 ∨ mark = 0x58) ∧ Numeral.dropSign token = 0x30 :: mark :: hex ∧
          Numeral.natural 16 64 hex = .ok n) ∨
        Numeral.natural 10 64 (Numeral.dropSign token) = .ok n) := by
  unfold wordLiteral? at h
  cases hhex : hexDigits? (Bytes.dropStart (utf8 "-") token) with
  | none =>
      rw [hhex] at h
      rcases Numeral.withSign_eq_ok (toOption_eq_some.1 h) with ⟨n, hn, hvalue⟩
      exact ⟨n, hvalue, .inr hn⟩
  | some hex =>
      rw [hhex] at h
      rcases Option.map_eq_some_iff.1 h with ⟨n, hn, hvalue⟩
      rcases hexDigits?_eq_some hhex with ⟨mark, hmark, heq⟩
      exact ⟨n, hvalue.symm,
        .inl ⟨mark, hex, hmark, (dropSign_of_hexDigits? hhex).trans heq, toOption_eq_some.1 hn⟩⟩

/-- Two readings of one token are the same number, unless it has leading zeros. -/
theorem literal?_eq_wordLiteral? {token : Bytes} {value value' : Int}
    (h : literal? token = some value) (h' : wordLiteral? token = some value')
    (hpadded : ¬ ∃ digits, Numeral.Padded token digits) :
    value = value' := by
  rcases literal?_eq_some h with ⟨n, hn, rfl⟩
  rcases wordLiteral?_eq_some h' with ⟨m, rfl, ⟨mark, hex, hmark, heq, hm⟩ | hm⟩
  · rw [heq, Numeral.literal_of_hex hmark hm] at hn
    cases hn
    rfl
  · rw [Numeral.literal_of_natural hm hpadded] at hn
    cases hn
    rfl

/-- Leading zeros make a number octal for instructions, and decimal for words. -/
theorem literals_of_padded {token digits : Bytes} (hpadded : Numeral.Padded token digits)
    {value value' : Int} (h : literal? token = some value) (h' : wordLiteral? token = some value') :
    value = Numeral.signed (token.head? == some 0x2D) (Numeral.number 8 digits) ∧
      value' = Numeral.signed (token.head? == some 0x2D) (Numeral.number 10 digits) := by
  rcases literal?_eq_some h with ⟨n, hn, rfl⟩
  rcases wordLiteral?_eq_some h' with ⟨m, rfl, ⟨mark, hex, hmark, heq, -⟩ | hm⟩
  · -- The mark of a hexadecimal number is no decimal digit.
    rw [hpadded.dropSign_eq] at heq
    have hdecimal := hpadded.decimal mark (by rw [heq]; simp)
    rcases hmark with rfl | rfl
    · exact absurd hdecimal (by decide)
    · exact absurd hdecimal (by decide)
  · rw [hpadded.dropSign_eq] at hn hm
    rw [hpadded.literal_eq_ok hn, hpadded.natural_eq_ok hm]
    exact ⟨rfl, rfl⟩

/-! ## Labels in front of numbers -/

/-- An immediate whose label is looked up before it is read as a number. -/
def immediateByLabel (symbols : SymbolTable) (token : Bytes) : Except Fault Int :=
  match symbols.resolve? token with
  | some address => .ok address.toNat
  | none =>
    match literal? token with
    | some value => .ok value
    | none => .error ⟨.unresolvedLabel, token⟩

/-- The operand of a word directive whose label is looked up before it is read as a number. -/
def wordByLabel (symbols : SymbolTable) (token : Bytes) : Except Fault UInt32 :=
  match symbols.resolve? token with
  | some address => .ok address
  | none =>
    match wordLiteral? token with
    | some value => .ok (wordOfInt value)
    | none => .error ⟨.malformedDirective, token⟩

/-! A label starts with a letter, and hence with neither a digit nor a sign. -/

section Names

variable {name : Bytes} (hname : isLabelName name = true)

include hname

theorem head_of_isLabelName {b : UInt8} {rest : Bytes} (h : name = b :: rest) :
    isLower b = true := by
  subst h
  exact (Bool.and_eq_true_iff.1 hname).1

theorem isAlphanumeric_of_mem_name : ∀ b ∈ name, isAlphanumeric b = true := by
  cases name with
  | nil => cases hname
  | cons b rest =>
      simp only [isLabelName, Bool.and_eq_true, List.all_eq_true] at hname
      exact List.forall_mem_cons.2 ⟨by simp [isAlphanumeric, hname.1], hname.2⟩

theorem underscore_not_mem_name : Numeral.underscore ∉ name :=
  Numeral.underscore_not_mem (isAlphanumeric_of_mem_name hname)

theorem not_decimal_name : ¬ ∀ b ∈ name, 0x30 ≤ b ∧ b ≤ 0x39 := by
  have hlower : ∀ b : UInt8, isLower b = true → ¬ (0x30 ≤ b ∧ b ≤ 0x39) :=
    forall_byte (by decide +kernel)
  cases name with
  | nil => cases hname
  | cons b rest =>
      intro hall
      exact hlower b (head_of_isLabelName hname rfl) (hall b List.mem_cons_self)

theorem dropSign_name : Numeral.dropSign name = name := by
  unfold Numeral.dropSign
  split
  · exact absurd (head_of_isLabelName hname rfl) (by decide)
  · exact absurd (head_of_isLabelName hname rfl) (by decide)
  · rfl

theorem literal?_name : literal? name = none := by
  rw [Option.eq_none_iff_forall_not_mem]
  intro value hvalue
  rcases literal?_eq_some hvalue with ⟨n, hn, -⟩
  cases name with
  | nil => cases hname
  | cons b rest =>
      have hzero : b ≠ 0x30 := isLower_ne (head_of_isLabelName hname rfl) (by decide)
      rw [dropSign_name hname,
        Numeral.literal_eq (List.cons_ne_nil b rest) (underscore_not_mem_name hname),
        Numeral.baseOf_of_ne hzero] at hn
      exact not_decimal_name hname (Numeral.decimal_of_readDigits hn)

theorem hexDigits?_name : hexDigits? name = none := by
  rw [Option.eq_none_iff_forall_not_mem]
  intro hex hhex
  rcases hexDigits?_eq_some hhex with ⟨mark, -, heq⟩
  exact absurd (head_of_isLabelName hname heq) (by decide)

theorem wordLiteral?_name : wordLiteral? name = none := by
  rw [Option.eq_none_iff_forall_not_mem]
  intro value hvalue
  rcases wordLiteral?_eq_some hvalue with ⟨n, -, ⟨mark, hex, -, heq, -⟩ | hn⟩
  · rw [dropSign_name hname] at heq
    exact absurd (head_of_isLabelName hname heq) (by decide)
  · rw [dropSign_name hname] at hn
    exact not_decimal_name hname (Numeral.decimal_of_readDigits (Numeral.natural_eq_ok hn).2)

theorem dropStart_minus_name : Bytes.dropStart (utf8 "-") name = name := by
  rw [Bytes.dropStart_minus, if_neg]
  intro hhead
  rcases List.head?_eq_some_iff.1 hhead with ⟨rest, heq⟩
  exact absurd (head_of_isLabelName hname heq) (by decide)

end Names

end Operand

/-- What a table of lines can resolve is spelled like the name of a label. -/
theorem SymbolTable.isLabelName_of_resolve? {lines : List Line} {token : Bytes} {address : UInt32}
    (h : (ofLines lines).resolve? token = some address) : isLabelName token = true := by
  rcases exists_find?_ofLines_iff.1 ⟨address, h⟩ with ⟨line, -, hlabel⟩
  have hcolon : utf8 ":" = [0x3A] := by decide
  have htoken : isLabel (token ++ [0x3A]) = true := by
    rw [← hcolon]
    exact List.mem_takeWhile_imp hlabel
  simpa [isLabel] using htoken

namespace Operand

variable (lines : List Line) (token : Bytes)

theorem immediateByLabel_eq :
    immediateByLabel (.ofLines lines) token = immediate (.ofLines lines) token := by
  unfold immediateByLabel immediate
  cases hresolve : (SymbolTable.ofLines lines).resolve? token with
  | none => rfl
  | some address => rw [literal?_name (SymbolTable.isLabelName_of_resolve? hresolve)]

theorem wordByLabel_eq : wordByLabel (.ofLines lines) token = word (.ofLines lines) token := by
  rw [wordByLabel, word_eq]
  cases hresolve : (SymbolTable.ofLines lines).resolve? token with
  | none => rw [ite_self]
  | some address =>
      have hname := SymbolTable.isLabelName_of_resolve? hresolve
      rw [wordLiteral?_name hname, dropStart_minus_name hname, hexDigits?_name hname]
      rfl

variable {lines token}

/-- A token that both readers accept is a literal for both, or a label. -/
theorem literals_or_label {value : Int} {result : UInt32}
    (h : immediate (.ofLines lines) token = .ok value)
    (h' : word (.ofLines lines) token = .ok result) :
    (∃ value', literal? token = some value ∧ wordLiteral? token = some value' ∧
        result = wordOfInt value') ∨
      isLabelName token = true ∧ value = result.toNat := by
  -- With labels looked up first, both readers decide in the same way whether the token is one.
  rw [← immediateByLabel_eq, immediateByLabel] at h
  rw [← wordByLabel_eq, wordByLabel] at h'
  cases hresolve : (SymbolTable.ofLines lines).resolve? token with
  | some address =>
      rw [hresolve] at h h'
      cases h
      cases h'
      exact .inr ⟨SymbolTable.isLabelName_of_resolve? hresolve, rfl⟩
  | none =>
      simp only [hresolve] at h h'
      cases hliteral : literal? token with
      | none =>
          rw [hliteral] at h
          cases h
      | some number =>
          rw [hliteral] at h
          cases hword : wordLiteral? token with
          | none =>
              rw [hword] at h'
              cases h'
          | some number' =>
              rw [hword] at h'
              cases h
              cases h'
              exact .inl ⟨number', rfl, rfl, rfl⟩

theorem wordOfInt_immediate {value : Int} {result : UInt32}
    (h : immediate (.ofLines lines) token = .ok value)
    (h' : word (.ofLines lines) token = .ok result)
    (hpadded : ¬ ∃ digits, Numeral.Padded token digits) :
    wordOfInt value = result := by
  rcases literals_or_label h h' with ⟨value', hvalue, hvalue', rfl⟩ | ⟨-, rfl⟩
  · rw [literal?_eq_wordLiteral? hvalue hvalue' hpadded]
  · exact wordOfInt_toNat result

theorem readings_of_padded {value : Int} {result : UInt32}
    (h : immediate (.ofLines lines) token = .ok value)
    (h' : word (.ofLines lines) token = .ok result) {digits : Bytes}
    (hpadded : Numeral.Padded token digits) :
    value = Numeral.signed (token.head? == some 0x2D) (Numeral.number 8 digits) ∧
      result =
        wordOfInt (Numeral.signed (token.head? == some 0x2D) (Numeral.number 10 digits)) := by
  rcases literals_or_label h h' with ⟨value', hvalue, hvalue', rfl⟩ | ⟨hname, -⟩
  · rcases literals_of_padded hpadded hvalue hvalue' with ⟨heq, heq'⟩
    exact ⟨heq, congrArg wordOfInt heq'⟩
  · have htoken : token = digits := (dropSign_name hname).symm.trans hpadded.dropSign_eq
    exact absurd (htoken ▸ hpadded.decimal) (not_decimal_name hname)

end Operand

/-- The labels of any lines, and hence of any source, are never mistaken for numbers: what resolves
is a literal of neither kind, and both readers give the same answers when they look a label up
first. A token that both accept is the same word for both, unless it is decimal digits with leading
zeros, which are octal for the one and decimal for the other. -/
theorem numerals_agree_apart_from_labels (lines : List Line) (token : Bytes) :
    ((SymbolTable.ofLines lines).resolve? token ≠ none →
        Operand.literal? token = none ∧ Operand.wordLiteral? token = none) ∧
      Operand.immediateByLabel (.ofLines lines) token = Operand.immediate (.ofLines lines) token ∧
      Operand.wordByLabel (.ofLines lines) token = Operand.word (.ofLines lines) token ∧
      ∀ value result, Operand.immediate (.ofLines lines) token = .ok value →
        Operand.word (.ofLines lines) token = .ok result →
          ((¬ ∃ digits, Numeral.Padded token digits) → Operand.wordOfInt value = result) ∧
          ∀ digits, Numeral.Padded token digits →
            value = Numeral.signed (token.head? == some 0x2D) (Numeral.number 8 digits) ∧
              result = Operand.wordOfInt
                (Numeral.signed (token.head? == some 0x2D) (Numeral.number 10 digits)) := by
  refine ⟨?_, Operand.immediateByLabel_eq lines token, Operand.wordByLabel_eq lines token, ?_⟩
  · intro hresolve
    rcases Option.ne_none_iff_exists'.1 hresolve with ⟨address, haddress⟩
    have hname := SymbolTable.isLabelName_of_resolve? haddress
    exact ⟨Operand.literal?_name hname, Operand.wordLiteral?_name hname⟩
  · intro value result h h'
    exact ⟨Operand.wordOfInt_immediate h h', fun digits => Operand.readings_of_padded h h'⟩

/-- A source with a label whose name could be a hexadecimal number. -/
def sampleNumerals : Bytes :=
  utf8 "nop\nface: .word face, -0x10, 010\n"

theorem sampleNumerals_read_apart :
    ∃ program, layout [] sampleNumerals = .ok program ∧
      Operand.literal? (utf8 "face") = none ∧ Operand.wordLiteral? (utf8 "face") = none ∧
      Operand.word (.ofLines program.lines) (utf8 "-0x10") = .ok (Operand.wordOfInt (-16)) ∧
      Operand.immediate (.ofLines program.lines) (utf8 "010") =
        .ok (Numeral.number 8 (utf8 "010")) ∧
      Operand.word (.ofLines program.lines) (utf8 "010") =
        .ok (Operand.wordOfInt (Numeral.number 10 (utf8 "010"))) := by
  have hread : (layout [] sampleNumerals).toOption.map (fun program =>
      ((SymbolTable.ofLines program.lines).resolve? (utf8 "face"),
        (Operand.immediate (.ofLines program.lines) (utf8 "-0x10")).toOption,
        (Operand.word (.ofLines program.lines) (utf8 "-0x10")).toOption,
        (Operand.immediate (.ofLines program.lines) (utf8 "010")).toOption,
        (Operand.word (.ofLines program.lines) (utf8 "010")).toOption)) =
      some (some 4, some (-16), some 0xFFFFFFF0, some 8, some 10) := by
    decide +kernel
  rcases Option.map_eq_some_iff.1 hread with ⟨program, hprogram, hvalues⟩
  simp only [Prod.mk.injEq, toOption_eq_some] at hvalues
  rcases hvalues with ⟨hface, hhex, hhex', hzeros, hzeros'⟩
  have hplain : ¬ ∃ digits, Numeral.Padded (utf8 "-0x10") digits := by
    rintro ⟨digits, hpadded⟩
    have hmark := hpadded.decimal 0x78
    rw [← hpadded.dropSign_eq] at hmark
    exact absurd (hmark (by decide)) (by decide)
  have hpadded : Numeral.Padded (utf8 "010") (utf8 "010") := by decide +kernel
  refine ⟨program, toOption_eq_some.1 hprogram, ?_, ?_, ?_, ?_⟩
  · exact ((numerals_agree_apart_from_labels program.lines (utf8 "face")).1 (by rw [hface]; simp)).1
  · exact ((numerals_agree_apart_from_labels program.lines (utf8 "face")).1 (by rw [hface]; simp)).2
  · rw [((numerals_agree_apart_from_labels program.lines (utf8 "-0x10")).2.2.2 _ _ hhex hhex').1
      hplain]
    exact hhex'
  · rcases ((numerals_agree_apart_from_labels program.lines (utf8 "010")).2.2.2
      _ _ hzeros hzeros').2 _ hpadded with ⟨hoctal, hdecimal⟩
    exact ⟨hzeros.trans (congrArg Except.ok hoctal), hzeros'.trans (congrArg Except.ok hdecimal)⟩

end Dlx
