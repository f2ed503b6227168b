import Dlx.Proofs.Text
import Dlx.Source.Line
import Dlx.Text.Numeral

/-!
# Positional numerals

The reader of a numeral goes from its front to its end and compares every value on the way with the
bound of its range. This module says what is read without the reader: a numeral is a digit, or a
numeral with one more digit behind it. Leading zeros are digits like others, and no value on the way
is above the last one, so the bound decides nothing but the end.

* `Numeral.Digit`, `Numeral.Writes`: digits, and the texts that write a number in a base
* `Numeral.natural_eq_ok_iff`: what is read as a number is what writes one below the bound
* `Numeral.WritesSigned`, `Numeral.integer_eq_ok_iff`: the same for numerals with a sign
-/

namespace Dlx

namespace Numeral

/-! ## Digits -/

/-- A byte is a digit with a value: a decimal digit, or a letter of either case from ten on. -/
def Digit (b : UInt8) (d : Nat) : Prop :=
  d < 10 ∧ b.toNat = 0x30 + d ∨ 10 ≤ d ∧ d < 36 ∧
    (b.toNat = 0x61 + (d - 10) ∨ b.toNat = 0x41 + (d - 10))

instance (b : UInt8) (d : Nat) : Decidable (Digit b d) :=
  inferInstanceAs (Decidable (_ ∨ _))

theorem digitOf?_eq_some_iff {b : UInt8} {d : Nat} : digitOf? b.toNat = some d ↔ Digit b d := by
  unfold digitOf? Digit
  split
  · simp only [Option.some.injEq]
    omega
  · split
    · simp only [Option.some.injEq]
      omega
    · split
      · simp only [Option.some.injEq]
        omega
      · simp only [reduceCtorEq, false_iff]
        omega

theorem digit?_eq_some_iff {base d : Nat} {b : UInt8} :
    digit? base b.toNat = some d ↔ Digit b d ∧ d < base := by
  simp [digit?, Option.filter_eq_some_iff, digitOf?_eq_some_iff]

theorem Digit.isAlphanumeric {b : UInt8} {d : Nat} (h : Digit b d) : isAlphanumeric b = true := by
  have hall : ∀ b : UInt8, (digitOf? b.toNat).isSome = true → Dlx.isAlphanumeric b = true :=
    forall_byte (by decide +kernel)
  exact hall b (by rw [digitOf?_eq_some_iff.2 h]; rfl)

/-! ## Reading digits -/

/-- Digits that are read one by one. -/
theorem readDigits_cons_eq_ok {base bound value result : Nat} {b : UInt8} {rest : Bytes} :
    readDigits base bound false value (b :: rest) = .ok result ↔
      ∃ d, digit? base b.toNat = some d ∧ value * base + d < bound ∧
        readDigits base bound false (value * base + d) rest = .ok result := by
  simp only [readDigits, Bool.false_and, Bool.false_eq_true, ↓reduceIte]
  cases digit? base b.toNat with
  | none => simp
  | some d =>
      by_cases hbound : value * base + d < bound
      · simp [hbound]
      · simp [hbound]

/-- What is read are digits, and underscores where these may separate them. -/
theorem underscore_or_digit_of_readDigits {base bound value result : Nat} {separated : Bool}
    {text : Bytes} (h : readDigits base bound separated value text = .ok result) :
    ∀ b ∈ text, separated = true ∧ b = underscore ∨ ∃ d, digit? base b.toNat = some d := by
  induction text generalizing value with
  | nil =>
      intro b hb
      cases hb
  | cons first rest ih =>
      rw [readDigits] at h
      rw [List.forall_mem_cons]
      split at h
      · rename_i hunderscore
        exact ⟨.inl (by simpa using hunderscore), ih h⟩
      · split at h
        · cases h
        · rename_i d hdigit
          split at h
          · exact ⟨.inr ⟨d, hdigit⟩, ih h⟩
          · cases h

/-- Digits behind others are read from the value of those. -/
theorem readDigits_append (base bound : Nat) (separated : Bool) (value : Nat) (text more : Bytes) :
    readDigits base bound separated value (text ++ more) =
      readDigits base bound separated value text >>= (readDigits base bound separated · more) := by
  induction text generalizing value with
  | nil => rfl
  | cons b rest ih =>
      rw [List.cons_append, readDigits, readDigits]
      split
      · exact ih value
      · split
        · rfl
        · split
          · exact ih _
          · rfl

theorem readDigits_concat_eq_ok {base bound value result : Nat} {text : Bytes} {b : UInt8} :
    readDigits base bound false value (text ++ [b]) = .ok result ↔
      ∃ n d, readDigits base bound false value text = .ok n ∧ (Digit b d ∧ d < base) ∧
          n * base + d < bound ∧
        result = n * base + d := by
  rw [readDigits_append, bind_eq_ok]
  constructor
  · rintro ⟨n, hn, hlast⟩
    rcases readDigits_cons_eq_ok.1 hlast with ⟨d, hdigit, hbound, hend⟩
    cases hend
    exact ⟨n, d, hn, digit?_eq_some_iff.1 hdigit, hbound, rfl⟩
  · rintro ⟨n, d, hn, hdigit, hbound, rfl⟩
    exact ⟨n, hn, readDigits_cons_eq_ok.2 ⟨d, digit?_eq_some_iff.2 hdigit, hbound, rfl⟩⟩

/-! ## Numerals -/

/-- The texts that write a number in a base: a digit, or a numeral with a digit behind it. -/
inductive Writes (base : Nat) : Bytes → Nat → Prop where
  | digit {b : UInt8} {d : Nat} (h : Digit b d) (hlt : d < base) : Writes base [b] d
  | concat {text : Bytes} {n : Nat} {b : UInt8} {d : Nat} (h : Writes base text n)
      (hdigit : Digit b d) (hlt : d < base) :
      Writes base (text ++ [b]) (n * base + d)

/-- A numeral is read as the number that it writes, if that is below the bound. -/
theorem Writes.readDigits_eq {base bound n : Nat} {text : Bytes} (h : Writes base text n)
    (hn : n < bound) :
    readDigits base bound false 0 text = .ok n := by
  induction h with
  | digit h hlt =>
      refine readDigits_cons_eq_ok.2 ⟨_, digit?_eq_some_iff.2 ⟨h, hlt⟩, ?_, ?_⟩
      · simpa using hn
      · simp [readDigits]
  | @concat text n b d h hdigit hlt ih =>
      -- The value in front of the last digit is not above the whole.
      have hfront : n ≤ n * base := Nat.le_mul_of_pos_right n (by omega)
      exact readDigits_concat_eq_ok.2 ⟨n, d, ih (by omega), ⟨hdigit, hlt⟩, hn, rfl⟩

/-- What is read as a number writes it, and it is below the bound. -/
theorem writes_of_readDigits {base bound n : Nat} {text : Bytes} (hne : text ≠ [])
    (h : readDigits base bound false 0 text = .ok n) : Writes base text n ∧ n < bound := by
  induction text using List.reverseRecOn generalizing n with
  | nil => exact absurd rfl hne
  | append_singleton front b ih =>
      rcases readDigits_concat_eq_ok.1 h with ⟨m, d, hm, ⟨hdigit, hlt⟩, hbound, rfl⟩
      refine ⟨?_, hbound⟩
      by_cases hfront : front = []
      · cases hfront
        cases hm
        simpa using Writes.digit hdigit hlt
      · exact .concat (ih hfront hm).1 hdigit hlt

theorem natural_eq_ok {base bits n : Nat} {text : Bytes} (h : natural base bits text = .ok n) :
    text ≠ [] ∧ readDigits base (Nat.pow 2 bits) false 0 text = .ok n := by
  unfold natural at h
  split at h
  · cases h
  · rename_i hne
    exact ⟨by simpa using hne, h⟩

theorem Writes.ne_nil {base n : Nat} {text : Bytes} (h : Writes base text n) : text ≠ [] := by
  cases h with
  | digit => exact List.cons_ne_nil _ _
  | concat => simp

/-- What is read as a number of some bits is what writes such a number. -/
theorem natural_eq_ok_iff {base bits n : Nat} {text : Bytes} :
    natural base bits text = .ok n ↔ Writes base text n ∧ n < 2 ^ bits := by
  constructor
  · intro h
    rcases natural_eq_ok h with ⟨hne, hread⟩
    exact writes_of_readDigits hne hread
  · rintro ⟨h, hn⟩
    have hempty : text.isEmpty = false := by simpa using h.ne_nil
    simp [natural, hempty, h.readDigits_eq hn]

/-- A numeral of 32 bits is a word. -/
theorem toNat_of_natural {base n : Nat} {text : Bytes} (h : natural base 32 text = .ok n) :
    n.toUInt32.toNat = n := by
  rw [Nat.toUInt32_eq, UInt32.toNat_ofNat_of_lt' (natural_eq_ok_iff.1 h).2]

theorem natural_eq_word_iff {base : Nat} {text : Bytes} {word : UInt32} :
    natural base 32 text = .ok word.toNat ↔ Writes base text word.toNat := by
  rw [natural_eq_ok_iff, and_iff_left word.toNat_lt]

theorem Writes.exists_digit {base n : Nat} {text : Bytes} (h : Writes base text n) :
    ∀ b ∈ text, ∃ d, Digit b d ∧ d < base := by
  induction h with
  | digit h hlt =>
      intro b hb
      cases List.mem_singleton.1 hb
      exact ⟨_, h, hlt⟩
  | concat h hdigit hlt ih =>
      intro b hb
      rcases List.mem_append.1 hb with hb | hb
      · exact ih b hb
      · cases List.mem_singleton.1 hb
        exact ⟨_, hdigit, hlt⟩

theorem Writes.isAlphanumeric {base n : Nat} {text : Bytes} (h : Writes base text n) :
    ∀ b ∈ text, isAlphanumeric b = true := by
  intro b hb
  rcases h.exists_digit b hb with ⟨d, hdigit, -⟩
  exact hdigit.isAlphanumeric

/-! ## Signs -/

theorem withSign_eq (bits : Nat) (magnitude : Bytes → Except Flaw Nat) (text : Bytes) :
    withSign bits magnitude text = magnitude (dropSign text) >>=
      bounded bits (text.head? == some 0x2D) := by
  unfold withSign dropSign
  split
  · rfl
  · rfl
  · rename_i hplus hminus
    have hhead : (text.head? == some 0x2D) = false := by
      cases text with
      | nil => rfl
      | cons b rest =>
          have hb : b ≠ 0x2D := fun heq => hminus rest (by rw [heq])
          simpa using hb
    rw [hhead]

/-- A number with its sign. -/
def signed (negative : Bool) (magnitude : Nat) : Int :=
  if negative then -(magnitude : Int) else magnitude

theorem bounded_eq_ok_iff {bits magnitude : Nat} {negative : Bool} {value : Int} :
    bounded bits negative magnitude = .ok value ↔
      value = signed negative magnitude ∧ -((2 ^ (bits - 1) : Nat) : Int) ≤ value ∧
        value < (2 ^ (bits - 1) : Nat) := by
  have hpos : 0 < 2 ^ (bits - 1) := Nat.two_pow_pos (bits - 1)
  simp only [bounded, signed, Nat.pow_eq]
  cases negative with
  | true =>
      by_cases hbound : magnitude ≤ 2 ^ (bits - 1)
      · simp only [hbound, ↓reduceIte, Except.ok.injEq]
        omega
      · simp only [hbound, ↓reduceIte, reduceCtorEq, false_iff]
        omega
  | false =>
      by_cases hbound : magnitude < 2 ^ (bits - 1)
      · simp only [hbound, ↓reduceIte, Bool.false_eq_true, Except.ok.injEq]
        omega
      · simp only [hbound, ↓reduceIte, Bool.false_eq_true, reduceCtorEq, false_iff]
        omega

/-- The texts that write a number with an optional sign. -/
inductive WritesSigned (base : Nat) : Bytes → Int → Prop where
  | unsigned {text : Bytes} {n : Nat} (h : Writes base text n) : WritesSigned base text n
  | plus {text : Bytes} {n : Nat} (h : Writes base text n) : WritesSigned base (0x2B :: text) n
  | minus {text : Bytes} {n : Nat} (h : Writes base text n) : WritesSigned base (0x2D :: text) (-n)

theorem eq_sign_dropSign (text : Bytes) :
    text = dropSign text ∨ text = 0x2B :: dropSign text ∨ text = 0x2D :: dropSign text := by
  unfold dropSign
  split
  · exact .inr (.inl rfl)
  · exact .inr (.inr rfl)
  · exact .inl rfl

/-- A numeral starts with a digit, and hence with no sign. -/
theorem Writes.dropSign_eq {base n : Nat} {text : Bytes} (h : Writes base text n) :
    dropSign text = text := by
  unfold dropSign
  split
  · exact absurd (h.isAlphanumeric 0x2B List.mem_cons_self) (by decide)
  · exact absurd (h.isAlphanumeric 0x2D List.mem_cons_self) (by decide)
  · rfl

theorem writesSigned_iff {base : Nat} {text : Bytes} {value : Int} :
    WritesSigned base text value ↔
      ∃ n, Writes base (dropSign text) n ∧ value = signed (text.head? == some 0x2D) n := by
  constructor
  · intro h
    cases h with
    | @unsigned text n h =>
        refine ⟨n, by rwa [h.dropSign_eq], ?_⟩
        cases text with
        | nil => rfl
        | cons b rest =>
            -- A numeral has no sign of its own, or it would not be alphanumeric.
            have hb : b ≠ 0x2D := by
              rintro rfl
              exact absurd (h.isAlphanumeric 0x2D List.mem_cons_self) (by decide)
            simp [signed, hb]
    | plus h => exact ⟨_, h, rfl⟩
    | minus h => exact ⟨_, h, rfl⟩
  · rintro ⟨n, h, rfl⟩
    cases text with
    | nil => exact .unsigned h
    | cons b rest =>
        by_cases hplus : b = 0x2B
        · cases hplus
          exact .plus h
        · by_cases hminus : b = 0x2D
          · cases hminus
            exact .minus h
          · have hdrop : dropSign (b :: rest) = b :: rest := by simp [dropSign, hplus, hminus]
            rw [hdrop] at h
            simpa [signed, hminus] using WritesSigned.unsigned h

/-- What is read as an integer of some bits is what writes such an integer. -/
theorem integer_eq_ok_iff {base bits : Nat} {text : Bytes} {value : Int} (hbits : 0 < bits) :
    integer base bits text = .ok value ↔
      WritesSigned base text value ∧ -((2 ^ (bits - 1) : Nat) : Int) ≤ value ∧
        value < (2 ^ (bits - 1) : Nat) := by
  have hhalf : 2 ^ (bits - 1) < 2 ^ bits := Nat.two_pow_pred_lt_two_pow hbits
  simp only [integer, withSign_eq, bind_eq_ok, natural_eq_ok_iff, bounded_eq_ok_iff,
    writesSigned_iff]
  constructor
  · rintro ⟨n, ⟨h, -⟩, hvalue, hrange⟩
    exact ⟨⟨n, h, hvalue⟩, hrange⟩
  · rintro ⟨⟨n, h, rfl⟩, hrange⟩
    refine ⟨n, ⟨h, ?_⟩, rfl, hrange⟩
    -- Whatever the sign, the magnitude is at most half of the bound that it is read with.
    simp only [signed] at hrange
    split at hrange
    · omega
    · omega

end Numeral

end Dlx
