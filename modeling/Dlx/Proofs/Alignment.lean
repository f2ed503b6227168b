import Dlx.Proofs.Counter
import Mathlib.Order.Bounds.Basic

/-!
# Alignment

An alignment directive moves the location to the next multiple of a power of two. On naturals this
is `roundUp`, and it is known by what it is and not by how it is computed: the least of the
multiples from a number on. All laws of rounding are about these sets of multiples.

Addresses are words, and the last multiple that a word can hold may lie below the address. Rounding
then goes to `2 ^ 32`, which is a multiple of every boundary, so that the address wraps to zero and
is still aligned.

* `isLeast_roundUp`: rounding gives the least multiple
* `roundUp_two_pow`: of two roundings to powers of two the coarser one decides
* `alignUp_eq_roundUp`: addresses are aligned as naturals are rounded, modulo `2 ^ 32`
* `alignUp_is_least_multiple`: the laws of aligned addresses
-/

namespace Dlx

/-! ## Rounding naturals -/

/-- The multiples of `size` from `n` on. -/
def multiplesFrom (size n : Nat) : Set Nat :=
  {k | size ∣ k ∧ n ≤ k}

theorem dvd_roundUp (n size : Nat) : size ∣ roundUp n size :=
  Nat.dvd_mul_left size _

/-- Rounding up gives the least multiple from a number on. -/
theorem isLeast_roundUp (n : Nat) {size : Nat} (hsize : 0 < size) :
    IsLeast (multiplesFrom size n) (roundUp n size) := by
  refine ⟨⟨dvd_roundUp n size, le_roundUp n hsize⟩, ?_⟩
  rintro k ⟨⟨quotient, rfl⟩, hle⟩
  have hquotient : (n + (size - 1)) / size ≤ quotient := by
    rw [Nat.div_le_iff_le_mul hsize]
    rw [Nat.mul_comm] at hle
    omega
  calc
    roundUp n size = (n + (size - 1)) / size * size := rfl
    _ ≤ quotient * size := Nat.mul_le_mul_right size hquotient
    _ = size * quotient := Nat.mul_comm quotient size

theorem roundUp_le {n size k : Nat} (hsize : 0 < size) (hdvd : size ∣ k) (hle : n ≤ k) :
    roundUp n size ≤ k :=
  (isLeast_roundUp n hsize).2 ⟨hdvd, hle⟩

theorem roundUp_eq_self {n size : Nat} (hsize : 0 < size) (h : size ∣ n) : roundUp n size = n :=
  Nat.le_antisymm (roundUp_le hsize h (Nat.le_refl n)) (le_roundUp n hsize)

/-- A multiple of a coarser boundary is behind the next multiple of a finer one as soon as it is
behind the number. -/
theorem multiplesFrom_roundUp {fine coarse : Nat} (hfine : 0 < fine) (h : fine ∣ coarse) (n : Nat) :
    multiplesFrom coarse (roundUp n fine) = multiplesFrom coarse n := by
  ext k
  constructor
  · rintro ⟨hdvd, hle⟩
    exact ⟨hdvd, Nat.le_trans (le_roundUp n hfine) hle⟩
  · rintro ⟨hdvd, hle⟩
    exact ⟨hdvd, roundUp_le hfine (Nat.dvd_trans h hdvd) hle⟩

theorem roundUp_roundUp {fine coarse : Nat} (hfine : 0 < fine) (hcoarse : 0 < coarse)
    (h : fine ∣ coarse) (n : Nat) :
    roundUp (roundUp n fine) coarse = roundUp n coarse := by
  have hleast := isLeast_roundUp (roundUp n fine) hcoarse
  rw [multiplesFrom_roundUp hfine h] at hleast
  exact hleast.unique (isLeast_roundUp n hcoarse)

/-- Of two roundings to powers of two the coarser one decides, whichever comes first. -/
theorem roundUp_two_pow (n i j : Nat) :
    roundUp (roundUp n (2 ^ i)) (2 ^ j) = roundUp n (2 ^ max i j) := by
  rcases Nat.le_total i j with hij | hji
  · rw [Nat.max_eq_right hij,
      roundUp_roundUp (Nat.two_pow_pos i) (Nat.two_pow_pos j) (Nat.pow_dvd_pow 2 hij)]
  · -- The second rounding finds its work done.
    have hdvd : 2 ^ j ∣ roundUp n (2 ^ i) := Nat.dvd_trans (Nat.pow_dvd_pow 2 hji) (dvd_roundUp n _)
    rw [Nat.max_eq_left hji, roundUp_eq_self (Nat.two_pow_pos j) hdvd]

/-! ## Aligned addresses -/

section Aligned

variable {n : Nat} (hn : n ≤ 31) (address : UInt32)

include hn

theorem alignUp_eq_roundUp :
    alignUp address (1 <<< n.toUInt32) = UInt32.ofNat (roundUp address.toNat (2 ^ n)) := by
  rw [← alignUp_ofNat address.toNat hn, UInt32.ofNat_toNat]

theorem toNat_alignUp :
    (alignUp address (1 <<< n.toUInt32)).toNat = roundUp address.toNat (2 ^ n) % 2 ^ 32 := by
  rw [alignUp_eq_roundUp hn, UInt32.toNat_ofNat']

theorem two_pow_dvd_word : 2 ^ n ∣ 2 ^ 32 :=
  Nat.pow_dvd_pow 2 (by omega)

theorem dvd_alignUp : 2 ^ n ∣ (alignUp address (1 <<< n.toUInt32)).toNat := by
  rw [toNat_alignUp hn, Nat.dvd_mod_iff (two_pow_dvd_word hn)]
  exact dvd_roundUp _ _

/-- No address is rounded past the first number that is no word. -/
theorem roundUp_le_word : roundUp address.toNat (2 ^ n) ≤ 2 ^ 32 :=
  roundUp_le (Nat.two_pow_pos n) (two_pow_dvd_word hn) (Nat.le_of_lt address.toNat_lt)

/-- Rounding leaves the words exactly from an address behind the last multiple on. -/
theorem roundUp_eq_word_iff :
    roundUp address.toNat (2 ^ n) = 2 ^ 32 ↔ 2 ^ 32 - 2 ^ n < address.toNat := by
  have hpos : 0 < 2 ^ n := Nat.two_pow_pos n
  have hlast : 2 ^ n ∣ 2 ^ 32 - 2 ^ n := Nat.dvd_sub (two_pow_dvd_word hn) (Nat.dvd_refl _)
  have hle : 2 ^ n ≤ 2 ^ 32 := Nat.le_of_dvd (by decide) (two_pow_dvd_word hn)
  constructor
  · intro hround
    by_contra hbelow
    have hleast := roundUp_le hpos hlast (Nat.le_of_not_lt hbelow)
    omega
  · intro habove
    -- Between the last multiple and `2 ^ 32` there is no room for another.
    rcases Nat.dvd_sub (two_pow_dvd_word hn) (dvd_roundUp address.toNat (2 ^ n)) with
      ⟨quotient, hquotient⟩
    have hfrom := le_roundUp address.toNat hpos
    have hto := roundUp_le_word hn address
    have hzero : quotient = 0 := by
      by_contra hne
      have hsize : 2 ^ n ≤ 2 ^ n * quotient := Nat.le_mul_of_pos_right _ (Nat.pos_of_ne_zero hne)
      omega
    rw [hzero, Nat.mul_zero] at hquotient
    omega

/-- An address is aligned to zero from zero, and from behind the last multiple. -/
theorem alignUp_eq_zero_iff :
    alignUp address (1 <<< n.toUInt32) = 0 ↔ address = 0 ∨ 2 ^ 32 - 2 ^ n < address.toNat := by
  have hfrom := le_roundUp address.toNat (Nat.two_pow_pos n)
  have hto := roundUp_le_word hn address
  rw [← roundUp_eq_word_iff hn, ← UInt32.toNat_inj, ← UInt32.toNat_inj, toNat_alignUp hn,
    UInt32.toNat_zero]
  constructor
  · intro hzero
    by_cases hword : roundUp address.toNat (2 ^ n) = 2 ^ 32
    · exact .inr hword
    · rw [Nat.mod_eq_of_lt (by omega)] at hzero
      exact .inl (by omega)
  · rintro (hzero | hword)
    · rw [hzero, roundUp_eq_self (Nat.two_pow_pos n) (Nat.dvd_zero _), Nat.zero_mod]
    · rw [hword, Nat.mod_self]

/-- Of two alignments the coarser one decides: what the first one wraps is a multiple for the second
too. -/
theorem alignUp_alignUp {m : Nat} (hm : m ≤ 31) :
    alignUp (alignUp address (1 <<< m.toUInt32)) (1 <<< n.toUInt32) =
      alignUp address (1 <<< (max m n).toUInt32) := by
  rw [alignUp_eq_roundUp hm, alignUp_ofNat _ hn, roundUp_two_pow,
    alignUp_eq_roundUp (Nat.max_le.2 ⟨hm, hn⟩)]

end Aligned

/-- Aligning an address to `2 ^ n` gives a multiple of `2 ^ n`: the least one from the address on,
modulo `2 ^ 32`. That is zero exactly for zero and for addresses above the last multiple. Aligning
again changes nothing, and of two alignments the coarser one decides. -/
theorem alignUp_is_least_multiple (address : UInt32) {n : Nat} (hn : n ≤ 31) :
    2 ^ n ∣ (alignUp address (1 <<< n.toUInt32)).toNat ∧
      (∃ least, IsLeast (multiplesFrom (2 ^ n) address.toNat) least ∧
        (alignUp address (1 <<< n.toUInt32)).toNat = least % 2 ^ 32) ∧
      (alignUp address (1 <<< n.toUInt32) = 0 ↔ address = 0 ∨ 2 ^ 32 - 2 ^ n < address.toNat) ∧
      alignUp (alignUp address (1 <<< n.toUInt32)) (1 <<< n.toUInt32) =
        alignUp address (1 <<< n.toUInt32) ∧
      ∀ m : Nat, m ≤ 31 →
        alignUp (alignUp address (1 <<< m.toUInt32)) (1 <<< n.toUInt32) =
          alignUp address (1 <<< (max m n).toUInt32) := by
  refine ⟨dvd_alignUp hn address, ?_, alignUp_eq_zero_iff hn address, ?_,
    fun m => alignUp_alignUp hn address⟩
  · exact ⟨_, isLeast_roundUp address.toNat (Nat.two_pow_pos n), toNat_alignUp hn address⟩
  · rw [alignUp_alignUp hn address hn, Nat.max_self]

/-- The last multiple of eight is `0xFFFFFFF8`. From the address behind it alignment goes to zero,
and a page boundary in between makes no difference. -/
theorem behindLastMultiple_wraps :
    (3 ≤ 31 ∧ 12 ≤ 31) ∧ alignUp 0xFFFFFFF9 8 = 0 ∧
      (∃ least, IsLeast (multiplesFrom 8 0xFFFFFFF9) least ∧ least % 2 ^ 32 = 0) ∧
      alignUp (alignUp 0xFFFFFFF9 4096) 8 = alignUp 0xFFFFFFF9 4096 := by
  have hboundary : (1 : UInt32) <<< (3 : Nat).toUInt32 = 8 := by decide
  have hpage : (1 : UInt32) <<< (12 : Nat).toUInt32 = 4096 := by decide
  rcases alignUp_is_least_multiple 0xFFFFFFF9 (show 3 ≤ 31 by decide) with
    ⟨-, ⟨least, hleast, hmod⟩, hzero, -, htwice⟩
  have hpages := htwice 12 (by decide)
  rw [hboundary] at hmod hzero hpages
  rw [hpage] at hpages
  have hwrapped : alignUp 0xFFFFFFF9 8 = 0 := hzero.2 (.inr (by decide))
  rw [hwrapped] at hmod
  exact ⟨by decide, hwrapped, ⟨least, hleast, hmod.symm⟩, hpages⟩

end Dlx
