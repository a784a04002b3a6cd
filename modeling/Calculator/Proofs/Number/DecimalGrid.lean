import Calculator.Proofs.Number.Fraction

/-!
# Rounding on a decimal grid

A fraction is rounded to so many places, or to so many digits, by rounding it on a grid whose points are a power
of ten apart (`Fraction.roundOn`). That moves it by half the width of the grid at most, keeps the order, and
leaves the points of the grid where they are; in particular it does not move a fraction across a power of ten
that lies on the grid.
-/

set_option autoImplicit false

namespace Calculator

namespace Fraction

variable {v w : Fraction}

/-! ## Rounding to natural numbers -/

/-- A whole number is rounded to itself. -/
theorem round_of_toRat_eq {k : Nat} (h : v.toRat = k) : v.round = k := by
  apply Nat.le_antisymm
  · apply round_le
    rw [h]
    linarith
  · exact le_round h.ge

/-- Rounding keeps the order. -/
theorem round_mono (h : v.toRat ≤ w.toRat) : v.round ≤ w.round := by
  by_contra hless
  have hsucc : (w.round : ℚ) + 1 ≤ v.round := by exact_mod_cast Nat.lt_of_not_le hless
  have hv := (abs_le.mp v.abs_round_sub_le).2
  have hw := (abs_le.mp w.abs_round_sub_le).1
  -- Both are the middle between two neighbours, and cannot have been rounded apart.
  have hmiddle : |(v.round : ℚ) - v.toRat| = 1 / 2 := by
    rw [abs_eq (by norm_num)]
    exact .inl (by linarith)
  have hmiddle' : |(w.round : ℚ) - w.toRat| = 1 / 2 := by
    rw [abs_eq (by norm_num)]
    exact .inr (by linarith)
  have hnext : v.round = w.round + 1 := by
    have hnext : (v.round : ℚ) = w.round + 1 := by linarith
    exact_mod_cast hnext
  have heven := v.even_round hmiddle
  rw [hnext, Nat.even_add_one] at heven
  exact heven (w.even_round hmiddle')

/-! ## Rounding to multiples of a power of ten -/

/-- A fraction rounded to a multiple of a power of ten; the middle between two goes to the even one. -/
def roundOn (v : Fraction) (unit : Int) : ℚ := (v.mulTenPow (-unit)).round * (10 : ℚ) ^ unit

/-- A power of ten is positive. -/
theorem tenPow_pos (unit : Int) : (0 : ℚ) < (10 : ℚ) ^ unit := zpow_pos (by norm_num) unit

/-- Dividing by a power of ten and multiplying by it changes nothing. -/
theorem toRat_mulTenPow_neg_mul (v : Fraction) (unit : Int) :
    (v.mulTenPow (-unit)).toRat * (10 : ℚ) ^ unit = v.toRat := by
  rw [toRat_mulTenPow, mul_assoc, ← zpow_add₀ (by norm_num), neg_add_cancel, zpow_zero, mul_one]

/-- Rounding moves a fraction by half the width of the grid at most. -/
theorem abs_roundOn_sub_le (v : Fraction) (unit : Int) : |v.roundOn unit - v.toRat| ≤ (10 : ℚ) ^ unit / 2 := by
  have hpos := tenPow_pos unit
  calc |v.roundOn unit - v.toRat|
      = |((v.mulTenPow (-unit)).round : ℚ) - (v.mulTenPow (-unit)).toRat| * (10 : ℚ) ^ unit := by
        rw [← v.toRat_mulTenPow_neg_mul unit, roundOn, ← sub_mul, abs_mul, abs_of_pos hpos]
    _ ≤ 1 / 2 * (10 : ℚ) ^ unit :=
        mul_le_mul_of_nonneg_right (v.mulTenPow (-unit)).abs_round_sub_le hpos.le
    _ = (10 : ℚ) ^ unit / 2 := by ring

/-- A fraction is rounded to a number that is not negative. -/
theorem roundOn_nonneg (v : Fraction) (unit : Int) : 0 ≤ v.roundOn unit :=
  mul_nonneg (Nat.cast_nonneg _) (tenPow_pos unit).le

/-- Rounding to multiples of one unit keeps the order. -/
theorem roundOn_mono (h : v.toRat ≤ w.toRat) (unit : Int) : v.roundOn unit ≤ w.roundOn unit := by
  have hround : (v.mulTenPow (-unit)).round ≤ (w.mulTenPow (-unit)).round := by
    apply round_mono
    rw [toRat_mulTenPow, toRat_mulTenPow]
    exact mul_le_mul_of_nonneg_right h (tenPow_pos _).le
  exact mul_le_mul_of_nonneg_right (Nat.cast_le.mpr hround) (tenPow_pos unit).le

/-- A multiple of the unit is not moved. -/
theorem roundOn_of_eq_mul {k : Nat} {unit : Int} (h : v.toRat = k * (10 : ℚ) ^ unit) :
    v.roundOn unit = v.toRat := by
  have hround : (v.mulTenPow (-unit)).round = k := by
    apply round_of_toRat_eq
    rw [toRat_mulTenPow, h, mul_assoc, ← zpow_add₀ (by norm_num), add_neg_cancel, zpow_zero, mul_one]
  rw [roundOn, hround, h]

/-- A whole number is rounded to itself where the unit is one or a part of one. -/
theorem roundOn_of_isWhole (h : v.isWhole = true) {unit : Int} (hunit : unit ≤ 0) :
    v.roundOn unit = v.toRat := by
  obtain ⟨places, hplaces⟩ := Int.eq_ofNat_of_zero_le (Int.neg_nonneg_of_nonpos hunit)
  have hcancel : (10 : ℚ) ^ places * (10 : ℚ) ^ unit = 1 := by
    rw [← zpow_natCast, ← zpow_add₀ (by norm_num), ← hplaces, neg_add_cancel, zpow_zero]
  apply roundOn_of_eq_mul (k := v.floor * 10 ^ places)
  rw [Nat.cast_mul, Nat.cast_pow, Nat.cast_ofNat, mul_assoc, hcancel, mul_one, v.toRat_floor_of_isWhole h]

/-! ## Powers of ten -/

/-- One scaled by a power of ten is that power. -/
theorem toRat_one_mulTenPow (exponent : Int) : ((ofNat 1).mulTenPow exponent).toRat = (10 : ℚ) ^ exponent := by
  rw [toRat_mulTenPow, toRat_ofNat, Nat.cast_one, one_mul]

/-- A power of ten is rounded to itself where the unit is no greater. -/
theorem roundOn_one_mulTenPow {unit exponent : Int} (h : unit ≤ exponent) :
    ((ofNat 1).mulTenPow exponent).roundOn unit = (10 : ℚ) ^ exponent := by
  obtain ⟨k, hk⟩ := Int.eq_ofNat_of_zero_le (Int.sub_nonneg_of_le h)
  rw [roundOn_of_eq_mul (k := 10 ^ k), toRat_one_mulTenPow]
  rw [toRat_one_mulTenPow, Nat.cast_pow, Nat.cast_ofNat, ← zpow_natCast, ← zpow_add₀ (by norm_num), ← hk,
    sub_add_cancel]

/-- A power of ten on the grid is not moved, and nothing is moved across it. -/
theorem roundOn_le_tenPow {unit exponent : Int} (hunit : unit ≤ exponent) (h : v.toRat ≤ (10 : ℚ) ^ exponent) :
    v.roundOn unit ≤ (10 : ℚ) ^ exponent := by
  rw [← toRat_one_mulTenPow] at h
  exact (roundOn_mono h unit).trans_eq (roundOn_one_mulTenPow hunit)

/-- Rounding does not lead below a power of ten that is a multiple of the unit. -/
theorem tenPow_le_roundOn {unit exponent : Int} (hunit : unit ≤ exponent) (h : (10 : ℚ) ^ exponent ≤ v.toRat) :
    (10 : ℚ) ^ exponent ≤ v.roundOn unit := by
  rw [← toRat_one_mulTenPow] at h
  exact (roundOn_one_mulTenPow hunit).symm.trans_le (roundOn_mono h unit)

/-- A fraction of up to so many powers of ten times the unit is rounded to as many units at most. -/
theorem round_mulTenPow_le {unit : Int} {m : Nat} (h : v.toRat ≤ (10 : ℚ) ^ (unit + m)) :
    (v.mulTenPow (-unit)).round ≤ 10 ^ m := by
  have hscaled : (v.mulTenPow (-unit)).toRat ≤ (10 : ℚ) ^ m := by
    calc (v.mulTenPow (-unit)).toRat = v.toRat * (10 : ℚ) ^ (-unit) := v.toRat_mulTenPow _
      _ ≤ (10 : ℚ) ^ (unit + m) * (10 : ℚ) ^ (-unit) := mul_le_mul_of_nonneg_right h (tenPow_pos _).le
      _ = (10 : ℚ) ^ m := by
          rw [← zpow_add₀ (by norm_num), add_neg_cancel_comm, zpow_natCast]
  apply round_le
  push_cast
  linarith

end Fraction

end Calculator
