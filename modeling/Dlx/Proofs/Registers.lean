import Dlx.Assembly.Operand
import Dlx.Proofs.Positional

/-!
# Register names

A register is named by its number, with or without the letter of its file in front. The number is
read by the general reader of numerals, so it may have leading zeros, and whatever that reader
refuses is no register either.

* `RegisterFile.letters`, `Operand.NamesRegister`: how the registers of a file are written
* `Operand.register_of_names`, `Operand.register_of_not_names`: what becomes of a token that names a
  register, and of one that names none
* `Operand.register_follows_names`: both together, as an equivalence for each outcome
-/

namespace Dlx

/-- The letters that may stand in front of a register number of a file. -/
def RegisterFile.letters : RegisterFile → Bytes
  | .general => utf8 "rR"
  | .float | .double => utf8 "fF"

namespace Operand

/-- A token names the register with a number: at most one letter of the file, and decimal digits
behind it. -/
inductive NamesRegister (file : RegisterFile) : Bytes → Nat → Prop where
  | number {digits : Bytes} {v : Nat} (h : Numeral.Writes 10 digits v) : NamesRegister file digits v
  | lettered {letter : UInt8} {digits : Bytes} {v : Nat} (hletter : letter ∈ file.letters)
      (h : Numeral.Writes 10 digits v) :
      NamesRegister file (letter :: digits) v

theorem isFileLetter_iff {file : RegisterFile} {b : UInt8} :
    isFileLetter file b = true ↔ b ∈ file.letters := by
  have hgeneral : utf8 "rR" = [0x72, 0x52] := by decide
  have hfloat : utf8 "fF" = [0x66, 0x46] := by decide
  cases file with
  | general => simp [isFileLetter, RegisterFile.letters, hgeneral]
  | float | double => simp [isFileLetter, RegisterFile.letters, hfloat]

/-- No letter of a file is a decimal digit. -/
theorem not_digit_of_mem_letters (file : RegisterFile) :
    ∀ b ∈ file.letters, ∀ d < 10, ¬ Numeral.Digit b d := by
  cases file with
  | general | float | double => decide +kernel

/-- What is left of a name without its letter are the digits of its number. -/
theorem namesRegister_iff {file : RegisterFile} {token : Bytes} {v : Nat} :
    NamesRegister file token v ↔ Numeral.Writes 10 (registerDigits file token) v := by
  constructor
  · intro h
    cases h with
    | lettered hletter h => simpa [registerDigits, isFileLetter_iff.2 hletter] using h
    | number h =>
        cases token with
        | nil => exact h
        | cons b rest =>
            -- The first digit of a number is not taken for a letter.
            have hletter : isFileLetter file b = false := by
              rcases h.exists_digit b List.mem_cons_self with ⟨d, hdigit, hlt⟩
              rw [Bool.eq_false_iff, Ne, isFileLetter_iff]
              exact fun hmem => not_digit_of_mem_letters file b hmem d hlt hdigit
            simpa [registerDigits, hletter] using h
  · intro h
    cases token with
    | nil => exact .number h
    | cons b rest =>
        by_cases hletter : isFileLetter file b = true
        · have hrest : Numeral.Writes 10 rest v := by simpa [registerDigits, hletter] using h
          exact .lettered (isFileLetter_iff.1 hletter) hrest
        · have hall : Numeral.Writes 10 (b :: rest) v := by simpa [registerDigits, hletter] using h
          exact .number hall

/-- A name is decimal digits, apart from a letter of the file in front. -/
theorem NamesRegister.exists_digit {file : RegisterFile} {front back : Bytes} {b : UInt8} {v : Nat}
    (h : NamesRegister file (front ++ b :: back) v) (hletter : front ≠ [] ∨ b ∉ file.letters) :
    ∃ d < 10, Numeral.Digit b d := by
  have hmem : ∀ {digits : Bytes}, Numeral.Writes 10 digits v → b ∈ digits →
      ∃ d < 10, Numeral.Digit b d := by
    intro digits hdigits hb
    rcases hdigits.exists_digit b hb with ⟨d, hdigit, hlt⟩
    exact ⟨d, hlt, hdigit⟩
  generalize htoken : front ++ b :: back = token at h
  cases h with
  | number h => exact hmem h (by simp [← htoken])
  | lettered hfirst h =>
      cases front with
      | nil =>
          cases htoken
          rcases hletter with hfront | hletter
          · exact absurd rfl hfront
          · exact absurd hfirst hletter
      | cons c front =>
          cases htoken
          exact hmem h (by simp)

theorem NamesRegister.ne_nil {file : RegisterFile} {token : Bytes} {v : Nat}
    (h : NamesRegister file token v) :
    token ≠ [] := by
  cases h with
  | number h => exact h.ne_nil
  | lettered => exact List.cons_ne_nil _ _

theorem NamesRegister.isAlphanumeric {file : RegisterFile} {token : Bytes} {v : Nat}
    (h : NamesRegister file token v) :
    ∀ b ∈ token, isAlphanumeric b = true := by
  have hletters : ∀ file : RegisterFile, ∀ b ∈ file.letters, Dlx.isAlphanumeric b = true := by
    intro file
    cases file with
    | general | float | double => decide +kernel
  cases h with
  | number h => exact h.isAlphanumeric
  | lettered hletter h => exact List.forall_mem_cons.2 ⟨hletters file _ hletter, h.isAlphanumeric⟩

/-! ## What is read -/

/-- A name is read as its number, unless that is odd and the file is the one of doubles. -/
theorem register_of_names {file : RegisterFile} {token : Bytes} {r : Register}
    (h : NamesRegister file token r) :
    register file token =
      if file = .double ∧ r.val % 2 = 1 then .error ⟨.oddDouble, token⟩ else .ok r := by
  -- Every register number fits into the eight bits of its reader.
  have hread : Numeral.natural 10 8 (registerDigits file token) = .ok r.val :=
    Numeral.natural_eq_ok_iff.2 ⟨namesRegister_iff.1 h, Nat.lt_trans r.isLt (by decide)⟩
  simp only [register, hread, r.isLt, ↓reduceDIte]

theorem register_of_not_names {file : RegisterFile} {token : Bytes}
    (h : ∀ r : Register, ¬ NamesRegister file token r) :
    register file token = .error ⟨.malformedOperand, token⟩ := by
  unfold register
  split
  · rfl
  · rename_i number hread
    have hnames : NamesRegister file token number :=
      namesRegister_iff.2 (Numeral.natural_eq_ok_iff.1 hread).1
    split
    · rename_i hlt
      exact absurd hnames (h ⟨number, hlt⟩)
    · rfl

/-- All that can become of a token. -/
theorem register_cases (file : RegisterFile) (token : Bytes) :
    (∃ r : Register, NamesRegister file token r ∧
        register file token =
          if file = .double ∧ r.val % 2 = 1 then .error ⟨.oddDouble, token⟩ else .ok r) ∨
      register file token = .error ⟨.malformedOperand, token⟩ := by
  by_cases h : ∃ r : Register, NamesRegister file token r
  · rcases h with ⟨r, hnames⟩
    exact .inl ⟨r, hnames, register_of_names hnames⟩
  · exact .inr (register_of_not_names (not_exists.1 h))

theorem register_eq_ok_iff {file : RegisterFile} {token : Bytes} {r : Register} :
    register file token = .ok r ↔ NamesRegister file token r ∧
      (file = .double → r.val % 2 = 0) := by
  constructor
  · intro h
    rcases register_cases file token with ⟨r', hnames, hread⟩ | hread
    · rw [hread] at h
      split at h
      · cases h
      · rename_i heven
        cases h
        refine ⟨hnames, fun hdouble => ?_⟩
        have hodd := not_and.1 heven hdouble
        omega
    · rw [hread] at h
      cases h
  · rintro ⟨hnames, heven⟩
    rw [register_of_names hnames, if_neg]
    rintro ⟨hdouble, hodd⟩
    exact absurd (heven hdouble) (by omega)

theorem register_eq_odd_iff {file : RegisterFile} {token : Bytes} :
    register file token = .error ⟨.oddDouble, token⟩ ↔
      file = .double ∧ ∃ r : Register, NamesRegister file token r ∧ r.val % 2 = 1 := by
  constructor
  · intro h
    rcases register_cases file token with ⟨r, hnames, hread⟩ | hread
    · rw [hread] at h
      split at h
      · rename_i hodd
        exact ⟨hodd.1, r, hnames, hodd.2⟩
      · cases h
    · rw [hread] at h
      cases h
  · rintro ⟨hdouble, r, hnames, hodd⟩
    rw [register_of_names hnames, if_pos ⟨hdouble, hodd⟩]

theorem register_eq_malformed_iff {file : RegisterFile} {token : Bytes} :
    register file token = .error ⟨.malformedOperand, token⟩ ↔
      ∀ r : Register, ¬ NamesRegister file token r := by
  constructor
  · intro h r hnames
    rw [register_of_names hnames] at h
    split at h
    · cases h
    · cases h
  · exact register_of_not_names

/-- In the general file there is one way to fail. -/
theorem register_general_eq_error_iff {token : Bytes} {fault : Fault} :
    register .general token = .error fault ↔
      (∀ r, register .general token ≠ .ok r) ∧ fault = ⟨.malformedOperand, token⟩ := by
  rcases register_cases .general token with ⟨r, -, hread⟩ | hread
  · simp [hread]
  · simp [hread, eq_comm]

/-- Signs, underscores and misplaced letters have no place in a name. -/
theorem register_of_foreign {file : RegisterFile} {front back : Bytes} {b : UInt8}
    (h : b ∈ utf8 "+-_" ∨ b ∈ utf8 "rRfF" ∧ (front ≠ [] ∨ b ∉ file.letters)) :
    register file (front ++ b :: back) = .error ⟨.malformedOperand, front ++ b :: back⟩ := by
  refine register_of_not_names fun r hnames => ?_
  have hdigit : ∀ b ∈ utf8 "+-_" ++ utf8 "rRfF", ∀ d < 10, ¬ Numeral.Digit b d := by decide +kernel
  have hsign : ∀ b ∈ utf8 "+-_", b ∉ file.letters := by
    cases file with
    | general | float | double => decide +kernel
  rcases h with hb | ⟨hb, hplace⟩
  · rcases hnames.exists_digit (.inr (hsign b hb)) with ⟨d, hlt, hd⟩
    exact hdigit b (List.mem_append_left _ hb) d hlt hd
  · rcases hnames.exists_digit hplace with ⟨d, hlt, hd⟩
    exact hdigit b (List.mem_append_right _ hb) d hlt hd

/-- A token is read as the register that it names, when the file has that register. A double with an
odd number has a fault of its own, and every other token is malformed: in particular a token with a
sign or an underscore, with a letter of another file, or with a second letter. -/
theorem register_follows_names (file : RegisterFile) (token : Bytes) :
    (∀ r : Register, register file token = .ok r ↔
        NamesRegister file token r ∧ (file = .double → r.val % 2 = 0)) ∧
      (register file token = .error ⟨.oddDouble, token⟩ ↔
        file = .double ∧ ∃ v < 32, NamesRegister file token v ∧ v % 2 = 1) ∧
      (register file token = .error ⟨.malformedOperand, token⟩ ↔
        ¬ ∃ v < 32, NamesRegister file token v) ∧
      ∀ front b back, token = front ++ b :: back →
        b ∈ utf8 "+-_" ∨ b ∈ utf8 "rRfF" ∧ (front ≠ [] ∨ b ∉ file.letters) →
        register file token = .error ⟨.malformedOperand, token⟩ := by
  refine ⟨fun r => register_eq_ok_iff, ?_, ?_, ?_⟩
  · rw [register_eq_odd_iff]
    constructor
    · rintro ⟨hdouble, r, hnames, hodd⟩
      exact ⟨hdouble, r, r.isLt, hnames, hodd⟩
    · rintro ⟨hdouble, v, hlt, hnames, hodd⟩
      exact ⟨hdouble, ⟨v, hlt⟩, hnames, hodd⟩
  · rw [register_eq_malformed_iff]
    constructor
    · rintro hnone ⟨v, hlt, hnames⟩
      exact hnone ⟨v, hlt⟩ hnames
    · intro hnone r hnames
      exact hnone ⟨r, r.isLt, hnames⟩
  · rintro front b back rfl hb
    exact register_of_foreign hb

end Operand

end Dlx
