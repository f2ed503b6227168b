import Dlx.Proofs.Numerals
import Dlx.Proofs.Registers

/-!
# Memory operands

A memory operand is an offset with a base register in parentheses behind it, or an offset alone. It
is taken apart at its last parentheses, before anything is known about its parts, and only then are
these read. Neither a number nor a label nor a register holds a parenthesis, so what is taken apart
is what was put together, whatever stands in the operand.

* `Operand.immediate_bytes`: the bytes that numbers and labels are written with
* `Operand.indexed`, `Operand.MemoryParts`: an offset with its base, and the operands that are taken
  apart
* `Operand.ReadsMemory`, `Operand.MemoryFault`: the grammar of memory operands, and what is wrong
  with other tokens
* `Operand.memory_follows_grammar`: operands are read by this grammar, in one way only
-/

namespace Dlx

/-! ## The bytes of an offset -/

namespace Numeral

/-- The bytes of a literal are its digits, or belong to its mark. -/
theorem mem_baseOf_or {text : Bytes} {b : UInt8} (h : b ∈ text) :
    b ∈ (baseOf text).2 ∨ isAlphanumeric b = true := by
  have hzero : isAlphanumeric 0x30 = true := by decide
  have hmark : ∀ b : UInt8, (markLetter? b).isSome = true → isAlphanumeric b = true :=
    forall_byte (by decide +kernel)
  -- What `baseOf` leaves out is a zero at the front and the letter behind it.
  unfold baseOf
  split
  · rename_i mark d rest
    rcases List.mem_cons.1 h with rfl | h
    · exact .inr hzero
    · cases hletter : markLetter? mark with
      | none => exact .inl h
      | some letter =>
          rcases List.mem_cons.1 h with rfl | h
          · exact .inr (hmark b (by simp [hletter]))
          · left
            split
            · exact h
            · exact h
            · exact h
            · rename_i hnone
              cases hnone
  · rcases List.mem_cons.1 h with rfl | h
    · exact .inr hzero
    · exact .inl h
  · exact .inl h

theorem literal_bytes {bits n : Nat} {text : Bytes} (h : literal bits text = .ok n) :
    ∀ b ∈ text, isAlphanumeric b = true ∨ b = underscore := by
  intro b hb
  unfold literal at h
  split at h
  · cases h
  · dsimp only at h
    split at h
    · cases h
    · rename_i value hread
      rcases mem_baseOf_or hb with hb | hb
      · rcases underscore_or_digit_of_readDigits hread b hb with ⟨-, hunderscore⟩ | ⟨d, hdigit⟩
        · exact .inr hunderscore
        · exact .inl (digit?_eq_some_iff.1 hdigit).1.isAlphanumeric
      · exact .inl hb

end Numeral

namespace Operand

theorem literal?_bytes {token : Bytes} {value : Int} (h : literal? token = some value) :
    ∀ b ∈ token, isAlphanumeric b = true ∨ b ∈ utf8 "+-_" := by
  have hother : ∀ b : UInt8, b = 0x2B ∨ b = 0x2D ∨ b = Numeral.underscore → b ∈ utf8 "+-_" :=
    forall_byte (by decide +kernel)
  rcases literal?_eq_some h with ⟨n, hn, -⟩
  have hdigits : ∀ b ∈ Numeral.dropSign token, isAlphanumeric b = true ∨ b ∈ utf8 "+-_" := by
    intro b hb
    rcases Numeral.literal_bytes hn b hb with hb | hb
    · exact .inl hb
    · exact .inr (hother b (.inr (.inr hb)))
  rcases Numeral.eq_sign_dropSign token with htoken | htoken | htoken
  · rwa [htoken]
  · rw [htoken, List.forall_mem_cons]
    exact ⟨.inr (hother _ (.inl rfl)), hdigits⟩
  · rw [htoken, List.forall_mem_cons]
    exact ⟨.inr (hother _ (.inr (.inl rfl))), hdigits⟩

/-- Numbers and labels are written with letters, digits, signs and underscores. -/
theorem immediate_bytes {lines : List Line} {token : Bytes} {value : Int}
    (h : immediate (.ofLines lines) token = .ok value) :
    ∀ b ∈ token, isAlphanumeric b = true ∨ b ∈ utf8 "+-_" := by
  unfold immediate at h
  split at h
  · rename_i hliteral
    exact literal?_bytes hliteral
  · split at h
    · rename_i hresolve
      intro b hb
      exact .inl (isAlphanumeric_of_mem_name (SymbolTable.isLabelName_of_resolve? hresolve) b hb)
    · cases h

/-- What is missing is neither a number nor a label. -/
theorem immediate_nil_ne_ok (lines : List Line) (value : Int) :
    immediate (.ofLines lines) [] ≠ .ok value := by
  have hliteral : literal? [] = none := by decide
  have hresolve : (SymbolTable.ofLines lines).resolve? [] = none := by
    rw [Option.eq_none_iff_forall_not_mem]
    intro address haddress
    cases SymbolTable.isLabelName_of_resolve? haddress
  simp [immediate, hliteral, hresolve]

/-- What cannot be resolved is reported as a label. -/
theorem immediate_eq_error_iff {symbols : SymbolTable} {token : Bytes} {fault : Fault} :
    immediate symbols token = .error fault ↔
      (∀ value, immediate symbols token ≠ .ok value) ∧ fault = ⟨.unresolvedLabel, token⟩ := by
  unfold immediate
  split
  · simp
  · split
    · simp
    · simp [eq_comm]

/-! ## Taking an operand apart -/

/-- The text of an offset with its base register in parentheses behind it. -/
def indexed (offset base : Bytes) : Bytes :=
  offset ++ 0x28 :: (base ++ [0x29])

/-- The operands that are taken apart: the base is not empty and holds no parenthesis, and the
offset holds no newline. -/
structure MemoryParts (token offset base : Bytes) : Prop where
  text : token = indexed offset base
  base_ne_nil : base ≠ []
  base_plain : ∀ b ∈ base, isParenthesis b = false
  offset_line : (0x0A : UInt8) ∉ offset

theorem splitMemory?_eq_some_iff {token offset base : Bytes} :
    splitMemory? token = some (offset, base) ↔ MemoryParts token offset base := by
  constructor
  · intro h
    unfold splitMemory? at h
    split at h
    · rename_i inner hreverse
      dsimp only at h
      split at h
      · rename_i front hfront
        split at h
        · cases h
        · rename_i hparts
          simp only [Bool.or_eq_true, List.isEmpty_iff, List.contains_iff_mem, not_or] at hparts
          cases h
          refine ⟨?_, by simpa using hparts.1, ?_, by simpa using hparts.2⟩
          · -- Read from its end, the token is a parenthesis, the base, a parenthesis, the offset.
            have hinner : inner = inner.takeWhile (fun b => !isParenthesis b) ++ 0x28 :: front := by
              rw [← hfront, List.takeWhile_append_dropWhile]
            calc
              token = (0x29 :: inner).reverse := by rw [← hreverse, List.reverse_reverse]
              _ = (0x29 :: (inner.takeWhile (fun b => !isParenthesis b) ++
                    0x28 :: front)).reverse := by rw [← hinner]
              _ = indexed front.reverse
                    (inner.takeWhile fun b => !isParenthesis b).reverse := by simp [indexed]
          · intro b hb
            simpa using List.mem_takeWhile_imp (List.mem_reverse.1 hb)
      · cases h
    · cases h
  · intro h
    have hreverse : token.reverse = 0x29 :: (base.reverse ++ 0x28 :: offset.reverse) := by
      simp [h.text, indexed]
    have hplain : ∀ b ∈ base.reverse, (!isParenthesis b) = true := by
      intro b hb
      simpa using h.base_plain b (List.mem_reverse.1 hb)
    have htake : (base.reverse ++ 0x28 :: offset.reverse).takeWhile (fun b => !isParenthesis b) =
        base.reverse :=
      takeWhile_append_stop hplain (by simp [isParenthesis])
    have hdrop : (base.reverse ++ 0x28 :: offset.reverse).dropWhile (fun b => !isParenthesis b) =
        0x28 :: offset.reverse := by
      rw [List.dropWhile_append_of_pos hplain]
      simp [isParenthesis]
    simp [splitMemory?, hreverse, htake, hdrop, h.base_ne_nil, h.offset_line]

theorem memory_of_parts {symbols : SymbolTable} {token offset base : Bytes}
    (h : MemoryParts token offset base) :
    memory symbols token =
      (if offset.isEmpty then .ok 0 else immediate symbols offset) >>= fun value =>
        (register .general base).map (⟨wordOfInt value, ·⟩) := by
  simp only [memory, splitMemory?_eq_some_iff.2 h]
  split
  · rfl
  · rfl

theorem memory_of_no_parts {symbols : SymbolTable} {token : Bytes}
    (h : ∀ offset base, ¬ MemoryParts token offset base) :
    memory symbols token = (immediate symbols token).map (⟨wordOfInt ·, 0⟩) := by
  have hsplit : splitMemory? token = none := by
    rw [Option.eq_none_iff_forall_not_mem]
    rintro ⟨offset, base⟩ hparts
    exact h offset base (splitMemory?_eq_some_iff.1 hparts)
  simp only [memory, hsplit]
  rfl

/-! ## The grammar -/

/-- The value of an offset in front of a base: zero when nothing is written, and else a number or a
label. -/
inductive Offset (symbols : SymbolTable) : Bytes → Int → Prop where
  | missing : Offset symbols [] 0
  | immediate {text : Bytes} {value : Int} (h : immediate symbols text = .ok value) :
      Offset symbols text value

/-- A token reads as a memory operand: as an offset with a base, or as an offset alone, which is
taken from register zero. -/
inductive ReadsMemory (symbols : SymbolTable) (token : Bytes) (operand : MemoryOperand) : Prop where
  | based {offset base : Bytes} {value : Int} (htoken : token = indexed offset base)
      (hoffset : Offset symbols offset value)
      (hvalue : (operand.offset.toNat : Int) = value % 2 ^ 32)
      (hbase : register .general base = .ok operand.base)
  | alone {value : Int} (hoffset : immediate symbols token = .ok value)
      (hvalue : (operand.offset.toNat : Int) = value % 2 ^ 32) (hbase : operand.base = 0)

/-- What is wrong with a token: an offset that does not resolve, and a base that is no register only
when the offset is fine. A token that is not taken apart is an offset. -/
inductive MemoryFault (symbols : SymbolTable) (token : Bytes) : Fault → Prop where
  | offset {offset base : Bytes} (h : MemoryParts token offset base) (hne : offset ≠ [])
      (hnone : ∀ value, immediate symbols offset ≠ .ok value) :
      MemoryFault symbols token ⟨.unresolvedLabel, offset⟩
  | base {offset base : Bytes} {value : Int} (h : MemoryParts token offset base)
      (hoffset : Offset symbols offset value) (hnone : ∀ r, register .general base ≠ .ok r) :
      MemoryFault symbols token ⟨.malformedOperand, base⟩
  | alone (h : ∀ offset base, ¬ MemoryParts token offset base)
      (hnone : ∀ value, immediate symbols token ≠ .ok value) :
      MemoryFault symbols token ⟨.unresolvedLabel, token⟩

theorem eq_wordOfInt_iff {word : UInt32} {value : Int} :
    word = wordOfInt value ↔ (word.toNat : Int) = value % 2 ^ 32 := by
  have hword : ((wordOfInt value).toNat : Int) = value % 2 ^ 32 := by
    simp only [wordOfInt, Nat.toUInt32_eq, UInt32.toNat_ofNat']
    omega
  rw [← hword, ← UInt32.toNat_inj]
  omega

section Labels

variable {lines : List Line} {token offset base : Bytes}

theorem offset_iff {value : Int} :
    (if offset.isEmpty then .ok 0 else immediate (.ofLines lines) offset) = .ok value ↔
      Offset (.ofLines lines) offset value := by
  constructor
  · intro h
    split at h
    · rename_i hempty
      cases List.isEmpty_iff.1 hempty
      cases h
      exact .missing
    · exact .immediate h
  · intro h
    cases h with
    | missing => rfl
    | immediate h =>
        have hne : offset ≠ [] := by
          rintro rfl
          exact immediate_nil_ne_ok lines value h
        simpa [hne] using h

/-- No offset holds a byte of this kind. -/
theorem not_mem_immediate {value : Int} (h : immediate (.ofLines lines) token = .ok value)
    {b : UInt8} (hb : b ∈ [0x28, 0x29, 0x0A]) : b ∉ token := by
  have hall : ∀ b ∈ [(0x28 : UInt8), 0x29, 0x0A], ¬ (isAlphanumeric b = true ∨ b ∈ utf8 "+-_") := by
    decide +kernel
  exact fun hmem => hall b hb (immediate_bytes h b hmem)

theorem not_mem_offset {value : Int} (h : Offset (.ofLines lines) offset value) {b : UInt8}
    (hb : b ∈ [0x28, 0x29, 0x0A]) : b ∉ offset := by
  cases h with
  | missing => exact List.not_mem_nil
  | immediate h => exact not_mem_immediate h hb

/-- An offset and a register that are put together are taken apart again. -/
theorem parts_of_indexed {value : Int} {r : Register}
    (hoffset : Offset (.ofLines lines) offset value) (hbase : register .general base = .ok r) :
    MemoryParts (indexed offset base) offset base := by
  have hnames := (register_eq_ok_iff.1 hbase).1
  have hplain : ∀ b : UInt8, isAlphanumeric b = true → isParenthesis b = false :=
    forall_byte (by decide +kernel)
  exact ⟨rfl, hnames.ne_nil, fun b hb => hplain b (hnames.isAlphanumeric b hb),
    not_mem_offset hoffset (by decide)⟩

/-- An offset alone is not taken apart. -/
theorem no_parts_of_immediate {value : Int} (h : immediate (.ofLines lines) token = .ok value) :
    ∀ offset base, ¬ MemoryParts token offset base := by
  intro offset base hparts
  have hmem : 0x29 ∈ token := by simp [hparts.text, indexed]
  exact not_mem_immediate h (by decide) hmem

theorem memory_eq_ok_iff {operand : MemoryOperand} :
    memory (.ofLines lines) token = .ok operand ↔ ReadsMemory (.ofLines lines) token operand := by
  constructor
  · intro h
    by_cases hparts : ∃ offset base, MemoryParts token offset base
    · rcases hparts with ⟨offset, base, hparts⟩
      rw [memory_of_parts hparts] at h
      rcases bind_eq_ok.1 h with ⟨value, hvalue, h⟩
      rcases map_eq_ok.1 h with ⟨r, hr, rfl⟩
      exact .based hparts.text (offset_iff.1 hvalue) (eq_wordOfInt_iff.1 rfl) hr
    · simp only [not_exists] at hparts
      rw [memory_of_no_parts hparts] at h
      rcases map_eq_ok.1 h with ⟨value, hvalue, rfl⟩
      exact .alone hvalue (eq_wordOfInt_iff.1 rfl) rfl
  · intro h
    cases h with
    | based htoken hoffset hvalue hbase =>
        -- The base is a register and holds no parenthesis, so the token is cut as it is written.
        cases htoken
        rw [memory_of_parts (parts_of_indexed hoffset hbase), offset_iff.2 hoffset, ok_bind, hbase,
          ← eq_wordOfInt_iff.2 hvalue]
        rfl
    | alone hoffset hvalue hbase =>
        -- What reads as an immediate has no parenthesis, so it is not cut.
        rw [memory_of_no_parts (no_parts_of_immediate hoffset), hoffset, Except.map,
          ← eq_wordOfInt_iff.2 hvalue, ← hbase]

theorem memory_eq_error_iff {fault : Fault} :
    memory (.ofLines lines) token = .error fault ↔ MemoryFault (.ofLines lines) token fault := by
  constructor
  · intro h
    by_cases hparts : ∃ offset base, MemoryParts token offset base
    · rcases hparts with ⟨offset, base, hparts⟩
      rw [memory_of_parts hparts] at h
      rcases bind_eq_error.1 h with h | ⟨value, hvalue, h⟩
      · -- An offset that is empty cannot be at fault.
        split at h
        · cases h
        · rename_i hne
          rcases immediate_eq_error_iff.1 h with ⟨hnone, rfl⟩
          exact .offset hparts (by simpa using hne) hnone
      · rcases register_general_eq_error_iff.1 (map_eq_error.1 h) with ⟨hnone, rfl⟩
        exact .base hparts (offset_iff.1 hvalue) hnone
    · simp only [not_exists] at hparts
      rw [memory_of_no_parts hparts, map_eq_error, immediate_eq_error_iff] at h
      rcases h with ⟨hnone, rfl⟩
      exact .alone hparts hnone
  · intro h
    cases h with
    | @offset offset base hparts hne hnone =>
        have hempty : offset.isEmpty = false := by simpa using hne
        rw [memory_of_parts hparts, hempty, immediate_eq_error_iff.2 ⟨hnone, rfl⟩]
        rfl
    | @base offset base value hparts hoffset hnone =>
        rw [memory_of_parts hparts, offset_iff.2 hoffset, ok_bind,
          register_general_eq_error_iff.2 ⟨hnone, rfl⟩]
        rfl
    | alone hparts hnone =>
        rw [memory_of_no_parts hparts, immediate_eq_error_iff.2 ⟨hnone, rfl⟩]
        rfl

end Labels

/-- Where an offset and a base hold no parenthesis, their operand is cut into nothing else. -/
theorem indexed_inj {offset base front back : Bytes} (hoffset : 0x28 ∉ offset) (hbase : 0x28 ∉ base)
    (h : indexed offset base = indexed front back) : offset = front ∧ base = back := by
  have hcount : (indexed front back).count 0x28 = 1 := by
    rw [← h]
    simp [indexed, List.count_eq_zero.2 hoffset, List.count_eq_zero.2 hbase]
  have hfront : 0x28 ∉ front := by
    rw [← List.count_eq_zero]
    simp only [indexed, List.count_append, List.count_cons_self] at hcount
    omega
  have hcut : Bytes.cut? 0x28 (indexed offset base) = some (offset, base ++ [0x29]) :=
    Bytes.cut?_eq_some_iff.2 ⟨rfl, hoffset⟩
  have hcut' : Bytes.cut? 0x28 (indexed offset base) = some (front, back ++ [0x29]) :=
    Bytes.cut?_eq_some_iff.2 ⟨h, hfront⟩
  rw [hcut] at hcut'
  simpa using hcut'

/-- An operand that can be read holds one opening parenthesis at most. -/
theorem ReadsMemory.parts_unique {lines : List Line} {token : Bytes} {operand : MemoryOperand}
    (h : ReadsMemory (.ofLines lines) token operand) {offset base offset' base' : Bytes}
    (hcut : token = indexed offset base) (hcut' : token = indexed offset' base') :
    offset = offset' ∧ base = base' := by
  cases h with
  | alone hoffset _ _ =>
      have hmem : 0x28 ∈ token := by simp [hcut, indexed]
      exact absurd hmem (not_mem_immediate hoffset (by decide))
  | @based front back value htoken hoffset _ hbase =>
      have hparts := parts_of_indexed hoffset hbase
      have hback : 0x28 ∉ back := fun hmem => absurd (hparts.base_plain 0x28 hmem) (by decide)
      have hfront : 0x28 ∉ front := not_mem_offset hoffset (by decide)
      rcases indexed_inj hfront hback (htoken.symm.trans hcut) with ⟨rfl, rfl⟩
      exact indexed_inj hfront hback (htoken.symm.trans hcut')

/-- A token is read as a memory operand exactly when it is written as one, with its number modulo `2
^ 32`, and it can then be cut into an offset and a base in one way at most. Any other token is
refused for its offset, and only where that is fine for its base. -/
theorem memory_follows_grammar (lines : List Line) (token : Bytes) :
    (∀ operand, memory (.ofLines lines) token = .ok operand ↔
        ReadsMemory (.ofLines lines) token operand) ∧
      (∀ operand, memory (.ofLines lines) token = .ok operand → ∀ offset base offset' base',
        token = indexed offset base → token = indexed offset' base' →
          offset = offset' ∧ base = base') ∧
      ∀ fault, memory (.ofLines lines) token = .error fault ↔
        MemoryFault (.ofLines lines) token fault := by
  refine ⟨fun operand => memory_eq_ok_iff, ?_, fun fault => memory_eq_error_iff⟩
  intro operand h offset base offset' base' hcut hcut'
  exact (memory_eq_ok_iff.1 h).parts_unique hcut hcut'

end Operand

end Dlx
