import Mathlib.Tactic

/-!
# Numbers in words

A number is put into a word of `w` bits and taken out again with another signedness or another
width.  The lemmas say when the number that comes out is the one that went in.

* `toInt_ofNat_eq_iff` : in as `unsigned`, out as signed.
* `signExtend_eq_setWidth_iff` : one word, widened as signed and as unsigned.
* `toInt_setWidth_ofInt_eq_iff` : in as signed, out as unsigned and wider.
-/

namespace Width

variable {w v : ℕ}

/-- A number that fits comes back. -/
theorem toNat_ofNat_of_lt {n : ℕ} (h : n < 2 ^ w) : (BitVec.ofNat w n).toNat = n := by
  rw [BitVec.toNat_ofNat]
  exact Nat.mod_eq_of_lt h

/-- So does an integer that is not negative. -/
theorem toNat_ofInt_of_lt {i : ℤ} (h₀ : 0 ≤ i) (h₁ : i < ((2 ^ w : ℕ) : ℤ)) :
    ((BitVec.ofInt w i).toNat : ℤ) = i := by
  rw [BitVec.toNat_ofInt, Int.emod_eq_of_lt h₀ h₁]
  exact Int.toNat_of_nonneg h₀

/-- A natural number that fits comes back as a signed one if the sign bit stays clear. -/
theorem toInt_ofNat_eq_iff {n : ℕ} (h : n < 2 ^ w) :
    (BitVec.ofNat w n).toInt = n ↔ 2 * n < 2 ^ w := by
  rw [BitVec.toInt_eq_toNat_cond, toNat_ofNat_of_lt h]
  split_ifs with hlt
  · simp only [hlt]
  · have hpos : ((0 : ℕ) : ℤ) < ((2 ^ w : ℕ) : ℤ) := Int.ofNat_lt.mpr (Nat.two_pow_pos w)
    simp only [hlt, iff_false]
    omega

/-- The two ways to widen a word agree if the sign bit is clear. -/
theorem signExtend_eq_setWidth_iff (hwv : w < v) (x : BitVec w) :
    x.signExtend v = x.setWidth v ↔ 2 * x.toNat < 2 ^ w := by
  rw [← BitVec.msb_eq_false_iff_two_mul_lt]
  refine ⟨fun h => ?_, BitVec.signExtend_eq_setWidth_of_msb_false⟩
  by_contra hmsb
  have hpow : 2 ^ w < 2 ^ v := Nat.pow_lt_pow_right (by decide) hwv
  have hnat := congrArg BitVec.toNat h
  rw [BitVec.toNat_signExtend, if_pos (Bool.eq_true_of_not_eq_false hmsb)] at hnat
  omega

/-- A signed number that is read back as a wider unsigned one. -/
theorem toInt_setWidth_ofInt_eq_iff (hwv : w < v) (i : ℤ) :
    ((BitVec.ofInt w i).setWidth v).toInt = i ↔ 0 ≤ i ∧ i < ((2 ^ w : ℕ) : ℤ) := by
  have hpow : 2 ^ (w + 1) ≤ 2 ^ v := Nat.pow_le_pow_right (by decide) hwv
  have hlt := (BitVec.ofInt w i).isLt
  rw [pow_succ] at hpow
  -- the value that comes out is the one below `2 ^ w` that is congruent to `i`
  have hout : ((BitVec.ofInt w i).setWidth v).toInt = i % ((2 ^ w : ℕ) : ℤ) := by
    rw [BitVec.toInt_setWidth, Int.bmod_eq_of_le (by omega) (by omega), BitVec.toNat_ofInt]
    refine Int.toNat_of_nonneg (Int.emod_nonneg i ?_)
    exact Int.natCast_ne_zero.mpr (Nat.two_pow_pos w).ne'
  rw [hout]
  refine ⟨fun h => ?_, fun ⟨h₀, h₁⟩ => Int.emod_eq_of_lt h₀ h₁⟩
  rw [← h]
  have hpos : (0 : ℤ) < ((2 ^ w : ℕ) : ℤ) := Int.natCast_pos.mpr (Nat.two_pow_pos w)
  exact ⟨Int.emod_nonneg i hpos.ne', Int.emod_lt_of_pos i hpos⟩

end Width
