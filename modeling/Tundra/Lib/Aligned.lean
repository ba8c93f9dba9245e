import Mathlib.Data.Nat.Bitwise

/-!
# Alignment in machine words

A word without its low bits, and the next multiple of a power of two, as numbers. The sums here do not wrap.
-/

namespace Aligned

variable {x a : UInt64} {k : Nat}

/-- The bits of a word inside and outside of a mask. -/
theorem toNat_and_add_and_not (x mask : UInt64) : (x &&& mask).toNat + (x &&& ~~~mask).toNat = x.toNat := by
  have hdisjoint : (x.toBitVec &&& mask.toBitVec) &&& (x.toBitVec &&& ~~~mask.toBitVec) = 0#64 := by
    apply BitVec.eq_of_getElem_eq
    intro i hi
    simp only [BitVec.getElem_and, BitVec.getElem_not, BitVec.getElem_zero]
    cases mask.toBitVec[i] <;> simp
  have hor : (x.toBitVec &&& mask.toBitVec) ||| (x.toBitVec &&& ~~~mask.toBitVec) = x.toBitVec := by
    apply BitVec.eq_of_getElem_eq
    intro i hi
    simp only [BitVec.getElem_or, BitVec.getElem_and, BitVec.getElem_not]
    cases mask.toBitVec[i] <;> simp
  have hadd := BitVec.toNat_add_of_and_eq_zero hdisjoint
  rw [BitVec.add_eq_or_of_and_eq_zero _ _ hdisjoint, hor] at hadd
  exact hadd.symm

/-- A word without the bits below a power of two. -/
theorem toNat_and_not (x : UInt64) (ha : a.toNat = 2 ^ k) : (x &&& ~~~(a - 1)).toNat = x.toNat / 2 ^ k * 2 ^ k := by
  have hpos := Nat.two_pow_pos k
  have hle : (1 : UInt64) ≤ a := by
    rw [UInt64.le_iff_toNat_le, ha]
    exact hpos
  have hmask : (a - 1).toNat = 2 ^ k - 1 := by
    rw [UInt64.toNat_sub_of_le _ _ hle, ha]
    rfl
  have hlow : (x &&& (a - 1)).toNat = x.toNat % 2 ^ k := by rw [UInt64.toNat_and, hmask, Nat.and_two_pow_sub_one_eq_mod]
  have hsplit := toNat_and_add_and_not x (a - 1)
  have hdiv := Nat.div_add_mod x.toNat (2 ^ k)
  rw [Nat.mul_comm] at hdiv
  omega

/-- The next multiple of a number. -/
def up (n a : Nat) : Nat := (n + a - 1) / a * a

theorem le_up {n a : Nat} (ha : 0 < a) : n ≤ up n a := by
  have hdiv := Nat.div_add_mod (n + a - 1) a
  have hmod := Nat.mod_lt (n + a - 1) ha
  rw [Nat.mul_comm] at hdiv
  rw [up]
  omega

theorem up_lt {n a : Nat} (ha : 0 < a) : up n a < n + a := by
  have hle := Nat.div_mul_le_self (n + a - 1) a
  rw [up]
  omega

theorem dvd_up (n a : Nat) : a ∣ up n a := Nat.dvd_mul_left a _

/-- A word that is rounded up to a multiple of a power of two. -/
theorem toNat_up (ha : a.toNat = 2 ^ k) (hfits : x.toNat + a.toNat ≤ 2 ^ 64) :
    ((x + a - 1) &&& ~~~(a - 1)).toNat = up x.toNat a.toNat := by
  have hpos := Nat.two_pow_pos k
  have hone : (x + a - 1) = x + (a - 1) := by
    rw [UInt64.sub_eq_add_neg, UInt64.sub_eq_add_neg, UInt64.add_assoc]
  have hle : (1 : UInt64) ≤ a := by
    rw [UInt64.le_iff_toNat_le, ha]
    exact hpos
  have hmask : (a - 1).toNat = a.toNat - 1 := by
    rw [UInt64.toNat_sub_of_le _ _ hle]
    rfl
  have hsum : (x + a - 1).toNat = x.toNat + a.toNat - 1 := by
    rw [hone, UInt64.toNat_add, hmask, Nat.mod_eq_of_lt (by omega)]
    omega
  rw [toNat_and_not _ ha, hsum, up, ha]

theorem exists_two_pow (hne : a ≠ 0) (hand : a &&& (a - 1) = 0) : ∃ k, a.toNat = 2 ^ k := by
  have hpos : a.toNat ≠ 0 := fun h => hne (UInt64.toNat_inj.mp h)
  have hle : (1 : UInt64) ≤ a := by
    rw [UInt64.le_iff_toNat_le]
    exact Nat.one_le_iff_ne_zero.mpr hpos
  have hzero := congrArg UInt64.toNat hand
  rw [UInt64.toNat_and, UInt64.toNat_sub_of_le _ _ hle] at hzero
  exact (Nat.and_sub_one_eq_zero_iff_isPowerOfTwo hpos).mp hzero

/-- The smaller one of two powers of two divides both. -/
theorem min_dvd (k j : Nat) : min (2 ^ k) (2 ^ j) ∣ 2 ^ k ∧ min (2 ^ k) (2 ^ j) ∣ 2 ^ j := by
  rcases Nat.le_total k j with hle | hle
  · rw [Nat.min_eq_left (Nat.pow_le_pow_right Nat.two_pos hle)]
    exact ⟨Nat.dvd_refl _, Nat.pow_dvd_pow 2 hle⟩
  · rw [Nat.min_eq_right (Nat.pow_le_pow_right Nat.two_pos hle)]
    exact ⟨Nat.pow_dvd_pow 2 hle, Nat.dvd_refl _⟩

end Aligned
