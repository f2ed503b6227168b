import Dlx.Word
import Mathlib.Data.Nat.Bitwise

/-!
# Fields of a word as numbers

A word is built by uniting shifted fields and taken apart by shifting and masking. Both sides meet
in `Word.slice`, a stretch of bits read as a natural number: it is compatible with union, and every
field that `Word.decode` reads is a slice.

The second half is about signs. `Word.signed` reads a word as a balanced residue modulo `2 ^ 32`,
and `Word.signExtend` turns a field of `bits` bits into the balanced residue modulo `2 ^ bits`, so
that questions about sign extension become questions about `Int.bmod`.
-/

namespace Dlx
namespace Word

/-! ## Slices -/

/-- The `width` bits of a word from bit `start` on, as a number. -/
def slice (word : UInt32) (start width : Nat) : Nat :=
  word.toNat / 2 ^ start % 2 ^ width

theorem slice_or (a b : UInt32) (start width : Nat) :
    slice (a ||| b) start width = slice a start width ||| slice b start width := by
  simp only [slice, UInt32.toNat_or, Nat.or_div_two_pow, Nat.or_mod_two_pow]

theorem slice_zero (start width : Nat) : slice 0 start width = 0 := by
  simp [slice]

theorem toNat_mod_eq_slice (word : UInt32) (width : Nat) :
    word.toNat % 2 ^ width = slice word 0 width := by
  rw [slice, Nat.pow_zero, Nat.div_one]

/-- Masking the low bits of a word is taking a remainder. -/
theorem toNat_and_mask (word mask : UInt32) (width : Nat) (h : mask.toNat = 2 ^ width - 1) :
    (word &&& mask).toNat = word.toNat % 2 ^ width := by
  rw [UInt32.toNat_and, h, Nat.and_two_pow_sub_one_eq_mod]

/-- Shifting a word down and masking it is taking a slice. -/
theorem toNat_shift_mask (word start mask : UInt32) (width : Nat) (hstart : start.toNat < 32)
    (hmask : mask.toNat = 2 ^ width - 1) :
    (word >>> start &&& mask).toNat = slice word start.toNat width := by
  rw [toNat_and_mask _ _ _ hmask, UInt32.toNat_shiftRight, Nat.mod_eq_of_lt hstart,
    Nat.shiftRight_eq_div_pow]
  rfl

theorem decode_opcode (word : UInt32) : (decode word).opcode.toNat = slice word 26 6 :=
  toNat_shift_mask word 26 0x3F 6 (by decide) (by decide)

theorem decode_rs1 (word : UInt32) : (decode word).rs1.toNat = slice word 21 5 :=
  toNat_shift_mask word 21 0x1F 5 (by decide) (by decide)

theorem decode_rs2 (word : UInt32) : (decode word).rs2.toNat = slice word 16 5 :=
  toNat_shift_mask word 16 0x1F 5 (by decide) (by decide)

theorem decode_rd (word : UInt32) : (decode word).rd.toNat = slice word 11 5 :=
  toNat_shift_mask word 11 0x1F 5 (by decide) (by decide)

theorem decode_function (word : UInt32) : (decode word).function.toNat = slice word 0 6 := by
  have hmask : (word &&& 0x3F).toNat = word.toNat % 2 ^ 6 := toNat_and_mask word 0x3F 6 (by decide)
  simpa [decode, slice] using hmask

/-! ## Signed words -/

theorem signed_eq_bmod (word : UInt32) : signed word = Int.bmod word.toNat (2 ^ 32) :=
  BitVec.toInt_eq_toNat_bmod word.toBitVec

theorem signed_inj {a b : UInt32} : signed a = signed b ↔ a = b := by
  constructor
  · intro h
    exact UInt32.toBitVec_inj.1 (BitVec.toInt_inj.1 h)
  · rintro rfl
    rfl

/-- A number is its own balanced residue exactly when it lies in the balanced range. -/
theorem bmod_two_pow_eq_self_iff {bits : Nat} (hbits : 1 ≤ bits) (x : Int) :
    Int.bmod x (2 ^ bits) = x ↔ -(2 ^ (bits - 1) : Int) ≤ x ∧ x < 2 ^ (bits - 1) := by
  obtain ⟨n, rfl⟩ : ∃ n, bits = n + 1 := ⟨bits - 1, by omega⟩
  have hpos : 0 < 2 ^ (n + 1) := Nat.two_pow_pos _
  have htwice : (2 ^ (n + 1) : Nat) = 2 * 2 ^ n := by rw [Nat.pow_succ, Nat.mul_comm]
  have hcast : ((2 ^ n : Nat) : Int) = 2 ^ n := by push_cast; rfl
  rw [Int.bmod_eq_iff hpos, htwice, Nat.add_sub_cancel, ← hcast]
  constructor
  · rintro ⟨hlow, hhigh, -⟩
    omega
  · rintro ⟨hlow, hhigh⟩
    refine ⟨by omega, by omega, ?_⟩
    exact Int.sub_self x ▸ Int.dvd_zero _

/-- Balanced residues tell the same numbers apart as remainders do. -/
theorem bmod_natCast_eq_iff {a b m : Nat} : Int.bmod a m = Int.bmod b m ↔ a % m = b % m := by
  constructor
  · intro h
    have hemod := congrArg (· % (m : Int)) h
    simp only [Int.bmod_emod] at hemod
    exact_mod_cast hemod
  · intro h
    have hcast : (a : Int) % (m : Int) = b % (m : Int) := by exact_mod_cast h
    rw [← Int.emod_bmod, hcast, Int.emod_bmod]

/-! ## Sign extension -/

theorem toNat_bit {i : Nat} (h : i < 32) : (bit i).toNat = 2 ^ i := by
  have hall : ∀ j : Fin 32, (bit j).toNat = 2 ^ j.val := by decide
  exact hall ⟨i, h⟩

theorem toNat_bitsFrom {i : Nat} (h : i < 32) :
    (bitsFrom i).toNat = 2 ^ i * (2 ^ (32 - i) - 1) := by
  have hall : ∀ j : Fin 32, (bitsFrom j).toNat = 2 ^ j.val * (2 ^ (32 - j.val) - 1) := by decide
  exact hall ⟨i, h⟩

/-- The top bit of a value of `n + 1` bits is set exactly in the upper half of its range. -/
theorem and_bit_ne_zero_iff {value : UInt32} {n : Nat} (hn : n < 32)
    (hvalue : value.toNat < 2 ^ (n + 1)) :
    value &&& bit n ≠ 0 ↔ 2 ^ n ≤ value.toNat := by
  have htest : value &&& bit n ≠ 0 ↔ value.toNat.testBit n = true := by
    rw [ne_eq, ← UInt32.toNat_inj, UInt32.toNat_and, toNat_bit hn, UInt32.toNat_zero,
      Nat.and_two_pow]
    cases value.toNat.testBit n with
    | false => simp
    | true => simp
  rw [htest]
  constructor
  · exact Nat.ge_two_pow_of_testBit
  · intro hle
    have hquot : value.toNat / 2 ^ n = 1 := by
      rw [Nat.div_eq_iff (Nat.two_pow_pos n)]
      rw [Nat.pow_succ] at hvalue
      omega
    simp [Nat.testBit_eq_decide_div_mod_eq, hquot]

/-- Sign extension keeps the lower half of the range and moves the upper half to the top of the
words. -/
theorem toNat_signExtend {value : UInt32} {n : Nat} (hn : n < 32)
    (hvalue : value.toNat < 2 ^ (n + 1)) :
    (signExtend value (n + 1)).toNat =
      if value.toNat < 2 ^ n then value.toNat else value.toNat + (2 ^ 32 - 2 ^ (n + 1)) := by
  have hbit := and_bit_ne_zero_iff hn hvalue
  unfold signExtend
  rw [Nat.add_sub_cancel]
  by_cases hlow : value.toNat < 2 ^ n
  · have hclear : ¬(n + 1 ≠ 0 ∧ value &&& bit n ≠ 0) := by
      rw [hbit]
      omega
    rw [if_neg hclear, if_pos hlow]
  · have hset : n + 1 ≠ 0 ∧ value &&& bit n ≠ 0 := ⟨by omega, hbit.2 (by omega)⟩
    rw [if_pos hset, if_neg hlow]
    by_cases htop : n + 1 < 32
    · have hsplit : (2 : Nat) ^ 32 = 2 ^ (n + 1) * 2 ^ (32 - (n + 1)) := by
        rw [← Nat.pow_add]
        congr 1
        omega
      rw [UInt32.toNat_or, toNat_bitsFrom htop, Nat.or_comm,
        ← Nat.two_pow_add_eq_or_of_lt hvalue, Nat.mul_sub, Nat.mul_one, ← hsplit]
      omega
    · -- A full word has no bits above its sign.
      have hfull : n + 1 = 32 := by omega
      simp [hfull, bitsFrom]

/-- Read as a signed number, a sign extended field is its balanced residue. -/
theorem signed_signExtend {value : UInt32} {bits : Nat} (hpos : 1 ≤ bits) (hle : bits ≤ 32)
    (hvalue : value.toNat < 2 ^ bits) :
    signed (signExtend value bits) = Int.bmod value.toNat (2 ^ bits) := by
  obtain ⟨n, rfl⟩ : ∃ n, bits = n + 1 := ⟨bits - 1, by omega⟩
  have hdvd : (2 : Nat) ^ (n + 1) ∣ 2 ^ 32 := Nat.pow_dvd_pow 2 hle
  have hrange : (2 : Nat) ^ (n + 1) ≤ 2 ^ 32 := Nat.le_of_dvd (by decide) hdvd
  have htwice : (2 : Nat) ^ (n + 1) = 2 * 2 ^ n := by rw [Nat.pow_succ, Nat.mul_comm]
  rw [signed_eq_bmod, toNat_signExtend (by omega) hvalue]
  split
  · rw [Int.bmod_eq_of_le (by omega) (by omega), Int.bmod_eq_of_le (by omega) (by omega)]
  · -- Both residues are the value less `2 ^ (n + 1)`.
    have hcast : ((value.toNat + (2 ^ 32 - 2 ^ (n + 1)) : Nat) : Int) =
        value.toNat - (2 ^ (n + 1) : Nat) + (2 ^ 32 : Nat) := by omega
    have hres : Int.bmod ((value.toNat : Int) - (2 ^ (n + 1) : Nat)) (2 ^ (n + 1)) =
        Int.bmod value.toNat (2 ^ (n + 1)) := Int.sub_bmod_right _ _
    rw [hcast, Int.add_bmod_right, Int.bmod_eq_of_le (by omega) (by omega), ← hres,
      Int.bmod_eq_of_le (by omega) (by omega)]

/-- Low bits, signed, of a word and of its signed reading are the same. -/
theorem bmod_signed {bits : Nat} (hle : bits ≤ 32) (word : UInt32) :
    Int.bmod (signed word) (2 ^ bits) = Int.bmod word.toNat (2 ^ bits) := by
  rw [signed_eq_bmod, Int.bmod_bmod_of_dvd (Nat.pow_dvd_pow 2 hle)]

/-- A word that reads as the balanced residue of a number has the low bits of that number. -/
theorem toNat_mod_of_signed {bits n : Nat} (hle : bits ≤ 32) {word : UInt32}
    (h : signed word = Int.bmod n (2 ^ bits)) : word.toNat % 2 ^ bits = n % 2 ^ bits := by
  rw [← bmod_natCast_eq_iff, ← bmod_signed hle, h, Int.bmod_bmod]

/-- The lowest bits of a word, sign extended. -/
theorem signed_signExtend_mask {mask : UInt32} {bits : Nat} (hpos : 1 ≤ bits) (hle : bits ≤ 32)
    (hmask : mask.toNat = 2 ^ bits - 1) (word : UInt32) :
    signed (signExtend (word &&& mask) bits) = Int.bmod word.toNat (2 ^ bits) := by
  have hlow : (word &&& mask).toNat = word.toNat % 2 ^ bits := toNat_and_mask word mask bits hmask
  have hlt : (word &&& mask).toNat < 2 ^ bits := by
    rw [hlow]
    exact Nat.mod_lt _ (Nat.two_pow_pos bits)
  rw [signed_signExtend hpos hle hlt, hlow, Int.natCast_mod, Int.emod_bmod]

end Word
end Dlx
