import Mathlib.Data.Nat.Bitwise
import Mathlib.Data.UInt

/-!
# Words

Two words in one, words and their shifts, and clocks that wrap around.
-/

namespace Lib

/-! ## Two words in one -/

theorem halves_toNat (high low : UInt32) :
    (high.toUInt64 <<< 32 ||| low.toUInt64).toNat = high.toNat * 2 ^ 32 + low.toNat := by
  have hh := high.toNat_lt
  have hl := low.toNat_lt
  have h32 : (32 : UInt64).toNat % 64 = 32 := by decide
  rw [UInt64.toNat_or, UInt64.toNat_shiftLeft, UInt32.toNat_toUInt64, UInt32.toNat_toUInt64, h32,
    Nat.mod_eq_of_lt (by rw [Nat.shiftLeft_eq]; omega), ← Nat.shiftLeft_add_eq_or_of_lt hl, Nat.shiftLeft_eq]

theorem high_halves (high low : UInt32) : ((high.toUInt64 <<< 32 ||| low.toUInt64) >>> 32).toUInt32 = high := by
  have hh := high.toNat_lt
  have hl := low.toNat_lt
  have h32 : (32 : UInt64).toNat % 64 = 32 := by decide
  rw [← UInt32.toNat_inj, UInt64.toNat_toUInt32, UInt64.toNat_shiftRight, halves_toNat, h32,
    Nat.shiftRight_eq_div_pow]
  omega

theorem low_halves (high low : UInt32) :
    ((high.toUInt64 <<< 32 ||| low.toUInt64) &&& 0xFFFFFFFF).toUInt32 = low := by
  have hh := high.toNat_lt
  have hl := low.toNat_lt
  have hmask : (0xFFFFFFFF : UInt64).toNat = 2 ^ 32 - 1 := by decide
  rw [← UInt32.toNat_inj, UInt64.toNat_toUInt32, UInt64.toNat_and, halves_toNat, hmask,
    Nat.and_two_pow_sub_one_eq_mod]
  omega

theorem toNat_min (a b : UInt64) : (min a b).toNat = min a.toNat b.toNat := by
  have hmin : min a b = if a ≤ b then a else b := rfl
  rw [hmin]
  split
  · rename_i h
    have := UInt64.le_iff_toNat_le.mp h
    omega
  · rename_i h
    have := mt UInt64.le_iff_toNat_le.mpr h
    omega

theorem toNat_max (a b : UInt64) : (max a b).toNat = max a.toNat b.toNat := by
  have hmax : max a b = if a ≤ b then b else a := rfl
  rw [hmax]
  split
  · rename_i h
    have := UInt64.le_iff_toNat_le.mp h
    omega
  · rename_i h
    have := mt UInt64.le_iff_toNat_le.mpr h
    omega

/-! ## Shifts -/

/-- A word is not its own shift: the lowest set bit has moved. -/
theorem eq_zero_of_eq_shiftLeft {w n : Nat} {x : BitVec w} (hn : 0 < n) (h : x = x <<< n) : x = 0 := by
  have hbit : ∀ i, x.getLsbD i = false := by
    intro i
    induction i using Nat.strong_induction_on with
    | _ i ih =>
      rw [h, BitVec.getLsbD_shiftLeft]
      by_cases hi : i < n
      · simp [hi]
      · rw [ih (i - n) (by omega), Bool.and_false]
  apply BitVec.eq_of_getLsbD_eq
  intro i _
  rw [hbit i]
  simp

theorem eq_zero_of_eq_shiftRight {w n : Nat} {x : BitVec w} (hn : 0 < n) (h : x = x >>> n) : x = 0 := by
  have hdiv : x.toNat = x.toNat / 2 ^ n := by
    conv_lhs => rw [h, BitVec.toNat_ushiftRight, Nat.shiftRight_eq_div_pow]
  apply BitVec.eq_of_toNat_eq
  by_contra hx
  have hlt := Nat.div_lt_self (Nat.pos_of_ne_zero hx) (Nat.one_lt_two_pow hn.ne')
  omega

theorem xor_shiftLeft_ne_zero {x k : UInt64} (hk : 0 < k.toNat % 64) (h : x ≠ 0) : x ^^^ (x <<< k) ≠ 0 := by
  intro hx
  have heq : x = x <<< k := UInt64.xor_eq_zero_iff.mp hx
  apply h
  apply UInt64.toBitVec_inj.mp
  apply eq_zero_of_eq_shiftLeft hk
  conv_lhs => rw [heq]
  simp [UInt64.toBitVec_shiftLeft]

theorem xor_shiftRight_ne_zero {x k : UInt64} (hk : 0 < k.toNat % 64) (h : x ≠ 0) : x ^^^ (x >>> k) ≠ 0 := by
  intro hx
  have heq : x = x >>> k := UInt64.xor_eq_zero_iff.mp hx
  apply h
  apply UInt64.toBitVec_inj.mp
  apply eq_zero_of_eq_shiftRight hk
  conv_lhs => rw [heq]
  simp [UInt64.toBitVec_shiftRight]

/-! ## Sums -/

theorem toNat_sum (l : List UInt64) : l.sum.toNat = (l.map UInt64.toNat).sum % 2 ^ 64 := by
  induction l with
  | nil => rfl
  | cons a l ih =>
    rw [List.sum_cons, UInt64.toNat_add, ih, List.map_cons, List.sum_cons, Nat.add_mod_mod]

/-! ## Clocks -/

/-- Between two readings of a clock that wraps around, no more than the true time has passed. -/
theorem elapsed_le {t t' : Nat} (h : t ≤ t') : (UInt32.ofNat t' - UInt32.ofNat t).toNat ≤ t' - t := by
  rw [UInt32.toNat_sub, UInt32.toNat_ofNat', UInt32.toNat_ofNat']
  omega

/-- What such a clock shows of the time between two readings. -/
theorem elapsed_eq (t idle : Nat) : (UInt32.ofNat (t + idle) - UInt32.ofNat t).toNat = idle % 2 ^ 32 := by
  rw [UInt32.toNat_sub, UInt32.toNat_ofNat', UInt32.toNat_ofNat']
  omega

end Lib
