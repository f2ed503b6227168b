import Dlx.Proofs.Word

/-!
# Fields that give the word back

Decoding a word drops nothing. Two immediates are sign extended, so their upper bits are not bits of
the word, but the lower bits are kept and the signed reading stays in the range of the field; these
two facts pin a sign extension down. The other fields are slices, and the slices of a word from the
top down make up the word again.

* `eq_signExtend_iff`: sign extension by the low bits it keeps and the range it reads in
* `upper_or_slice`: the bits of a word from some bit on, with one field more
* `decode_loses_nothing`: the fields of a word as the two instruction formats cut it, and the fields
  inside the immediate
-/

namespace Dlx
namespace Word

/-! ## Sign extension -/

/-- The sign extension of a value is the one word with its bits that reads in the range of so many
bits. -/
theorem eq_signExtend_iff {value : UInt32} {bits : Nat} (hpos : 1 ≤ bits) (hle : bits ≤ 32)
    (hvalue : value.toNat < 2 ^ bits) (word : UInt32) :
    word = signExtend value bits ↔
      word.toNat % 2 ^ bits = value.toNat % 2 ^ bits ∧
        -(2 ^ (bits - 1) : Int) ≤ signed word ∧ signed word < 2 ^ (bits - 1) := by
  have hsigned := signed_signExtend hpos hle hvalue
  -- To read in the range is to be the balanced residue of the own low bits.
  rw [← bmod_two_pow_eq_self_iff hpos, bmod_signed hle]
  constructor
  · rintro rfl
    refine ⟨toNat_mod_of_signed hle hsigned, ?_⟩
    rw [← bmod_signed hle, hsigned, Int.bmod_bmod]
  · rintro ⟨hbits, hrange⟩
    rw [← signed_inj]
    calc
      signed word = Int.bmod word.toNat (2 ^ bits) := hrange.symm
      _ = Int.bmod value.toNat (2 ^ bits) := bmod_natCast_eq_iff.2 hbits
      _ = signed (signExtend value bits) := hsigned.symm

theorem decode_imm16_mod (word : UInt32) :
    (decode word).imm16.toNat % 2 ^ 16 = word.toNat % 2 ^ 16 :=
  toNat_mod_of_signed (by decide) (signed_signExtend_mask (by decide) (by decide) (by decide) word)

theorem decode_imm26_mod (word : UInt32) :
    (decode word).imm26.toNat % 2 ^ 26 = word.toNat % 2 ^ 26 :=
  toNat_mod_of_signed (by decide) (signed_signExtend_mask (by decide) (by decide) (by decide) word)

/-! ## Words from their fields -/

/-- Words that agree on their low bits have the same slices of them. -/
theorem slice_congr {a b : UInt32} {bits start width : Nat}
    (h : a.toNat % 2 ^ bits = b.toNat % 2 ^ bits) (hwithin : start + width ≤ bits) :
    slice a start width = slice b start width := by
  have hdvd : 2 ^ start * 2 ^ width ∣ 2 ^ bits := by
    rw [← Nat.pow_add]
    exact Nat.pow_dvd_pow 2 hwithin
  -- A slice of the low bits is computed from these alone.
  have hslice : ∀ word : UInt32,
      slice word start width = word.toNat % 2 ^ bits % (2 ^ start * 2 ^ width) / 2 ^ start := by
    intro word
    rw [Nat.mod_mod_of_dvd _ hdvd, Nat.mod_mul_right_div_self]
    rfl
  rw [hslice a, h, ← hslice b]

/-- A word with the bits below `start` cleared, as a number. -/
def upper (word : UInt32) (start : Nat) : Nat :=
  word.toNat / 2 ^ start * 2 ^ start

theorem upper_word (word : UInt32) : upper word 32 = 0 := by
  rw [upper, Nat.div_eq_of_lt word.toNat_lt, Nat.zero_mul]

/-- The slice below the upper bits joins them. -/
theorem upper_or_slice (word : UInt32) (start width : Nat) :
    upper word (start + width) ||| slice word start width * 2 ^ start = upper word start := by
  have hlt : slice word start width * 2 ^ start < 2 ^ (start + width) := by
    rw [Nat.pow_add, Nat.mul_comm]
    exact Nat.mul_lt_mul_of_pos_left (Nat.mod_lt _ (Nat.two_pow_pos width)) (Nat.two_pow_pos start)
  have hquotient : word.toNat / 2 ^ (start + width) = word.toNat / 2 ^ start / 2 ^ width := by
    rw [Nat.pow_add, Nat.div_div_eq_div_mul]
  calc
    upper word (start + width) ||| slice word start width * 2 ^ start
        = 2 ^ (start + width) * (word.toNat / 2 ^ start / 2 ^ width) +
          slice word start width * 2 ^ start := by
          rw [upper, Nat.mul_comm, hquotient, Nat.two_pow_add_eq_or_of_lt hlt]
    _ = (2 ^ width * (word.toNat / 2 ^ start / 2 ^ width) + slice word start width) *
        2 ^ start := by
          rw [Nat.add_mul, Nat.pow_add, Nat.mul_assoc, Nat.mul_comm (2 ^ start)]
    _ = upper word start := by
          rw [slice, Nat.div_add_mod, upper]

theorem upper_or_low (word : UInt32) (bits : Nat) :
    upper word bits ||| word.toNat % 2 ^ bits = word.toNat := by
  have hjoined := upper_or_slice word 0 bits
  rwa [Nat.zero_add, Nat.pow_zero, Nat.mul_one, ← toNat_mod_eq_slice, upper, upper, Nat.pow_zero,
    Nat.div_one, Nat.mul_one] at hjoined

/-- A field that is shifted to its place again keeps all its bits. -/
theorem toNat_shiftLeft_field {field word place : UInt32} {width : Nat} (hplace : place.toNat < 32)
    (h : field.toNat = slice word place.toNat width) :
    (field <<< place).toNat = slice word place.toNat width * 2 ^ place.toNat := by
  have hle : slice word place.toNat width * 2 ^ place.toNat ≤ word.toNat :=
    calc
      slice word place.toNat width * 2 ^ place.toNat
          ≤ word.toNat / 2 ^ place.toNat * 2 ^ place.toNat :=
            Nat.mul_le_mul_right _ (Nat.mod_le _ _)
      _ ≤ word.toNat := Nat.div_mul_le_self _ _
  rw [UInt32.toNat_shiftLeft, h, Nat.mod_eq_of_lt hplace, Nat.shiftLeft_eq,
    Nat.mod_eq_of_lt (Nat.lt_of_le_of_lt hle word.toNat_lt)]

/-- A field that stands below the upper bits joins them. -/
theorem toNat_or_shiftLeft_field {front field word : UInt32} {width : Nat} (place : UInt32)
    (hplace : place.toNat < 32) (hfront : front.toNat = upper word (place.toNat + width))
    (h : field.toNat = slice word place.toNat width) :
    (front ||| field <<< place).toNat = upper word place.toNat := by
  rw [UInt32.toNat_or, hfront, toNat_shiftLeft_field hplace h, upper_or_slice]

/-- The low bits complete the upper bits. -/
theorem or_mod_eq_word {front low word modulus : UInt32} (bits : Nat)
    (hmodulus : modulus.toNat = 2 ^ bits) (hfront : front.toNat = upper word bits)
    (hlow : low.toNat % 2 ^ bits = word.toNat % 2 ^ bits) :
    front ||| low % modulus = word := by
  rw [← UInt32.toNat_inj, UInt32.toNat_or, UInt32.toNat_mod, hmodulus, hfront, hlow, upper_or_low]

theorem toNat_opcode_bits (word : UInt32) :
    ((decode word).opcode <<< 26).toNat = upper word 26 := by
  have hnone : (0 : UInt32).toNat = upper word 32 := (upper_word word).symm
  have hjoined := toNat_or_shiftLeft_field 26 (by decide) hnone (decode_opcode word)
  rwa [UInt32.zero_or] at hjoined

theorem toNat_register_bits (word : UInt32) :
    ((decode word).opcode <<< 26 ||| (decode word).rs1 <<< 21 ||| (decode word).rs2 <<< 16).toNat =
      upper word 16 :=
  have hrs1 := toNat_or_shiftLeft_field 21 (by decide) (toNat_opcode_bits word) (decode_rs1 word)
  toNat_or_shiftLeft_field 16 (by decide) hrs1 (decode_rs2 word)

/-- Nothing is lost when a field is sign extended or a word is decoded. The sign extension of a
value is the only word with the bits of the value whose signed reading lies in the range of so many
bits. The opcode and the displacement of a word give the word back, and so do the opcode, two
registers and the immediate; the third register and the function code are bits of the immediate. -/
theorem decode_loses_nothing :
    (∀ (bits : Nat) (value : UInt32), 1 ≤ bits → bits ≤ 32 → value.toNat < 2 ^ bits →
      ∀ word, word = signExtend value bits ↔
        word.toNat % 2 ^ bits = value.toNat % 2 ^ bits ∧
          -(2 ^ (bits - 1) : Int) ≤ signed word ∧ signed word < 2 ^ (bits - 1)) ∧
    ∀ word : UInt32,
      (decode word).opcode <<< 26 ||| (decode word).imm26 % 0x4000000 = word ∧
        (decode word).opcode <<< 26 ||| (decode word).rs1 <<< 21 ||| (decode word).rs2 <<< 16 |||
          (decode word).imm16 % 0x10000 = word ∧
        (decode word).rd.toNat = slice (decode word).imm16 11 5 ∧
        (decode word).function.toNat = slice (decode word).imm16 0 6 := by
  refine ⟨fun bits value hpos hle hvalue => eq_signExtend_iff hpos hle hvalue,
    fun word => ⟨?_, ?_, ?_, ?_⟩⟩
  · exact or_mod_eq_word 26 (by decide) (toNat_opcode_bits word) (decode_imm26_mod word)
  · exact or_mod_eq_word 16 (by decide) (toNat_register_bits word) (decode_imm16_mod word)
  · rw [decode_rd, slice_congr (decode_imm16_mod word) (by decide)]
  · rw [decode_function, slice_congr (decode_imm16_mod word) (by decide)]

/-- The lowest number of a full word, which has no bits above its sign, and a load with a negative
offset. -/
theorem sampleLoad_loses_nothing :
    (1 ≤ 32 ∧ 32 ≤ 32 ∧ (0x80000000 : UInt32).toNat < 2 ^ 32) ∧
      (∀ word, word = signExtend 0x80000000 32 ↔
        word.toNat % 2 ^ 32 = (0x80000000 : UInt32).toNat % 2 ^ 32 ∧
          -(2 ^ 31 : Int) ≤ signed word ∧ signed word < 2 ^ 31) ∧
      decode 0x8C22FFFC = ⟨35, 1, 2, 31, 60, 0xFFFFFFFC, 0x22FFFC⟩ ∧
      (decode 0x8C22FFFC).opcode <<< 26 ||| (decode 0x8C22FFFC).rs1 <<< 21 |||
        (decode 0x8C22FFFC).rs2 <<< 16 ||| (decode 0x8C22FFFC).imm16 % 0x10000 = 0x8C22FFFC := by
  have hvalue : (0x80000000 : UInt32).toNat < 2 ^ 32 := by decide
  rcases decode_loses_nothing with ⟨hextend, hdecode⟩
  exact ⟨⟨by decide, by decide, hvalue⟩,
    hextend 32 0x80000000 (by decide) (by decide) hvalue, by decide, (hdecode 0x8C22FFFC).2.1⟩

end Word
end Dlx
