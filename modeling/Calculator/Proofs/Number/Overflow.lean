import Calculator.Number.Decimal
import Calculator.Proofs.Number.Fraction

/-!
# Where numbers become infinite

The words below the one of infinity are the finite numbers, and the largest of them is 2^1024 - 2^971. A value
is rounded to infinity from the middle between that number and 2^1024 on, because the word of 2^1024 is the even
one of the two (`Binary64.infinityWord_le_nearestWord_iff`). The same bound holds for decimals of any length,
whether their exponent settles the matter at once or not (`Decimal.toFloat?_eq_none_iff`).

A value is scaled to a whole number of at most fifty-three bits before it is rounded. The exponent of the scale
is 971 for the values around the bound; below, the word stays finite whatever the rounding does, and above, it
cannot.
-/

set_option autoImplicit false

namespace Calculator

namespace Binary64

/-- The middle between the largest finite number and the power of two above it. -/
def overflowBound : ℚ := 2 ^ 1024 - 2 ^ 970

/-- The bound on the scale of the largest finite numbers, where these are whole numbers of fifty-three bits. -/
theorem overflowBound_eq : overflowBound = (2 ^ 53 - 1 / 2) * (2 : ℚ) ^ (971 : Int) := by
  have hpower : (2 : ℚ) ^ 1024 = 2 ^ 54 * 2 ^ 970 := by rw [← pow_add]
  have hhalf : (2 : ℚ) ^ (971 : Int) = 2 ^ 970 * 2 := by rw [zpow_ofNat, ← pow_succ]
  rw [overflowBound, hpower, hhalf]
  generalize (2 : ℚ) ^ 970 = unit
  ring

/-- The bound is above all scales that are finer than that of the largest numbers. -/
theorem le_overflowBound : 2 ^ 53 * (2 : ℚ) ^ (971 - 1 : Int) ≤ overflowBound := by
  have hpos : (0 : ℚ) < (2 : ℚ) ^ (971 : Int) := zpow_pos two_pos 971
  rw [zpow_sub_one₀ two_ne_zero, overflowBound_eq]
  generalize (2 : ℚ) ^ (971 : Int) = unit at hpos ⊢
  linarith

/-- The bound is below all coarser scales. -/
theorem overflowBound_le : overflowBound ≤ 2 ^ 52 * (2 : ℚ) ^ (971 + 1 : Int) := by
  have hpos : (0 : ℚ) < (2 : ℚ) ^ (971 : Int) := zpow_pos two_pos 971
  rw [zpow_add_one₀ two_ne_zero, overflowBound_eq]
  generalize (2 : ℚ) ^ (971 : Int) = unit at hpos ⊢
  linarith

/-- The bound is at least one. -/
theorem one_le_overflowBound : 1 ≤ overflowBound := by
  have hpower : (1 : ℚ) ≤ (2 : ℚ) ^ (971 - 1 : Int) := one_le_zpow₀ one_le_two (by omega)
  refine le_trans ?_ le_overflowBound
  generalize (2 : ℚ) ^ (971 - 1 : Int) = unit at hpower ⊢
  linarith

/-- The exponent of the scale on which a fraction is rounded. -/
def roundingExponent (v : Fraction) : Int := max (v.floorLog2 - 52) (-1074)

variable {v : Fraction} (hv : v.num ≠ 0)
include hv

/-- The nearest word is put together from the exponent of the scale and the rounded fraction. -/
theorem nearestWord_eq : nearestWord v = (roundingExponent v + 1074).toNat * 2 ^ 52 +
    (v.mulTwoPow (-roundingExponent v)).round := by
  rw [nearestWord, if_neg hv]
  rfl

/-- On the scale, a fraction has at most fifty-three bits before the point. -/
theorem toRat_lt_scale : v.toRat < 2 ^ 53 * (2 : ℚ) ^ roundingExponent v := by
  have hexponent : v.floorLog2 + 1 ≤ 53 + roundingExponent v := by
    unfold roundingExponent
    omega
  calc v.toRat < (2 : ℚ) ^ (v.floorLog2 + 1) := (v.floorLog2_bounds hv).2
    _ ≤ (2 : ℚ) ^ (53 + roundingExponent v) := zpow_le_zpow_right₀ one_le_two hexponent
    _ = 2 ^ 53 * (2 : ℚ) ^ roundingExponent v := by
        rw [zpow_add₀ two_ne_zero]
        rfl

/-- It has exactly that many bits unless the scale is the finest one. -/
theorem scale_le_toRat (hnormal : -1074 < roundingExponent v) :
    2 ^ 52 * (2 : ℚ) ^ roundingExponent v ≤ v.toRat := by
  have hexponent : 52 + roundingExponent v = v.floorLog2 := by
    unfold roundingExponent at hnormal ⊢
    omega
  calc 2 ^ 52 * (2 : ℚ) ^ roundingExponent v = (2 : ℚ) ^ (52 + roundingExponent v) := by
        rw [zpow_add₀ two_ne_zero]
        rfl
    _ = (2 : ℚ) ^ v.floorLog2 := by rw [hexponent]
    _ ≤ v.toRat := (v.floorLog2_bounds hv).1

omit hv in
/-- The scaled fraction is the fraction divided by the scale. -/
theorem toRat_scaled (v : Fraction) (exponent : Int) :
    (v.mulTwoPow (-exponent)).toRat = v.toRat / (2 : ℚ) ^ exponent := by
  rw [Fraction.toRat_mulTwoPow, zpow_neg, div_eq_mul_inv]

/-- The scaled fraction is rounded to 2^53 at most. -/
theorem round_scaled_le : (v.mulTwoPow (-roundingExponent v)).round ≤ 2 ^ 53 := by
  apply Fraction.round_le
  have hscale : v.toRat / (2 : ℚ) ^ roundingExponent v < 2 ^ 53 := by
    rw [div_lt_iff₀ (zpow_pos two_pos _)]
    exact toRat_lt_scale hv
  rw [toRat_scaled]
  push_cast
  linarith

/-- Unless the scale is the finest one, the scaled fraction is rounded to 2^52 at least. -/
theorem le_round_scaled (hnormal : -1074 < roundingExponent v) :
    2 ^ 52 ≤ (v.mulTwoPow (-roundingExponent v)).round := by
  apply Fraction.le_round
  rw [toRat_scaled, le_div_iff₀ (zpow_pos two_pos _)]
  push_cast
  exact scale_le_toRat hv hnormal

omit hv in
/-- Around the bound, the rounded value gains a bit exactly from the bound on. -/
theorem le_round_scaled_iff :
    2 ^ 53 ≤ (v.mulTwoPow (-971)).round ↔ overflowBound ≤ v.toRat := by
  rw [overflowBound_eq, ← le_div_iff₀ (zpow_pos two_pos _), ← toRat_scaled]
  constructor
  · intro hround
    by_contra hbelow
    have hle : (v.mulTwoPow (-971)).round ≤ 2 ^ 53 - 1 := by
      apply Fraction.round_le
      push_cast
      linarith
    omega
  · intro habove
    apply Fraction.le_round_of_even (by decide)
    push_cast
    exact habove

/-- A fraction is rounded to infinity exactly from the bound on. -/
theorem infinityWord_le_nearestWord_iff :
    infinityWord ≤ nearestWord v ↔ overflowBound ≤ v.toRat := by
  rw [nearestWord_eq hv, infinityWord, Nat.pow_eq]
  rcases lt_trichotomy (roundingExponent v) 971 with hbelow | hequal | habove
  · -- The scale is too fine for the bound, and the exponent field stays below the last one.
    have hround := round_scaled_le hv
    have hsmall : v.toRat < overflowBound := by
      calc v.toRat < 2 ^ 53 * (2 : ℚ) ^ roundingExponent v := toRat_lt_scale hv
        _ ≤ 2 ^ 53 * (2 : ℚ) ^ (971 - 1 : Int) := by
            gcongr
            · exact one_le_two
            · omega
        _ ≤ overflowBound := le_overflowBound
    refine iff_of_false ?_ (not_le.mpr hsmall)
    omega
  · rw [hequal, ← le_round_scaled_iff]
    norm_num
    omega
  · have hround := le_round_scaled hv (by omega)
    have hlarge : overflowBound ≤ v.toRat := by
      calc overflowBound ≤ 2 ^ 52 * (2 : ℚ) ^ (971 + 1 : Int) := overflowBound_le
        _ ≤ 2 ^ 52 * (2 : ℚ) ^ roundingExponent v := by
            gcongr
            · exact one_le_two
            · omega
        _ ≤ v.toRat := scale_le_toRat hv (by omega)
    refine iff_of_true ?_ hlarge
    omega

end Binary64

namespace Decimal

/-- The rational number that a decimal stands for. -/
def toRat (d : Decimal) : ℚ := d.coefficient * (10 : ℚ) ^ d.exponent

variable (d : Decimal)

/-- The fraction of a decimal stands for the same number. -/
theorem toRat_value : d.value.toRat = d.toRat := by
  rw [value, Fraction.toRat_mulTenPow, Fraction.toRat_ofNat, toRat]

variable {d}

/-- A decimal whose exponent alone makes it too large is beyond the bound. -/
theorem overflowBound_le_toRat (hcoefficient : d.coefficient ≠ 0) (hexponent : 309 < d.exponent) :
    Binary64.overflowBound ≤ d.toRat := by
  have hpower : (2 : Nat) ^ 1024 ≤ 10 ^ 310 := by decide +kernel
  have hone : (1 : ℚ) ≤ d.coefficient := by exact_mod_cast Nat.one_le_iff_ne_zero.mpr hcoefficient
  have hhalf : (0 : ℚ) < 2 ^ 970 := pow_pos two_pos 970
  calc Binary64.overflowBound ≤ 2 ^ 1024 := sub_le_self _ hhalf.le
    _ ≤ 10 ^ 310 := by exact_mod_cast hpower
    _ = (10 : ℚ) ^ (310 : Int) := (zpow_ofNat 10 310).symm
    _ ≤ (10 : ℚ) ^ d.exponent := zpow_le_zpow_right₀ (by norm_num) (by omega)
    _ ≤ d.toRat := le_mul_of_one_le_left (zpow_pos (by norm_num) _).le hone

/-- A decimal whose exponent falls short of its length is below one. -/
theorem toRat_lt_one (hexponent : d.exponent + (d.coefficient.log2 : Int) < -330) : d.toRat < 1 := by
  have hlength : (d.coefficient : ℚ) < 2 ^ (d.coefficient.log2 + 1) := by exact_mod_cast Nat.lt_log2_self
  have hten : (2 : ℚ) ^ (d.coefficient.log2 + 1) ≤ 10 ^ (d.coefficient.log2 + 1) :=
    pow_le_pow_left₀ two_pos.le (by norm_num) _
  calc d.toRat < 10 ^ (d.coefficient.log2 + 1) * (10 : ℚ) ^ d.exponent :=
        mul_lt_mul_of_pos_right (hlength.trans_le hten) (zpow_pos (by norm_num) _)
    _ = (10 : ℚ) ^ ((d.coefficient.log2 : Int) + 1 + d.exponent) := by
        rw [← zpow_natCast, ← zpow_add₀ (by norm_num), Nat.cast_add, Nat.cast_one]
    _ ≤ (10 : ℚ) ^ (0 : Int) := zpow_le_zpow_right₀ (by norm_num) (by omega)
    _ = 1 := zpow_zero 10

/-- A decimal is rounded to infinity exactly from the bound on. -/
theorem infinityWord_le_nearestWord_iff :
    Binary64.infinityWord ≤ d.nearestWord ↔ Binary64.overflowBound ≤ d.toRat := by
  have hfinite : ¬Binary64.infinityWord ≤ 0 := by decide
  unfold nearestWord
  split
  · next hzero =>
    refine iff_of_false hfinite (not_le.mpr ?_)
    rw [toRat, hzero, Nat.cast_zero, zero_mul]
    exact one_pos.trans_le Binary64.one_le_overflowBound
  · next hcoefficient =>
    split
    · next hlarge => exact iff_of_true le_rfl (overflowBound_le_toRat hcoefficient hlarge)
    · split
      · next hsmall =>
        have hbelow := (toRat_lt_one hsmall).trans_le Binary64.one_le_overflowBound
        exact iff_of_false hfinite (not_le.mpr hbelow)
      · rw [← toRat_value]
        apply Binary64.infinityWord_le_nearestWord_iff
        simpa [value, Fraction.mulTenPow, Fraction.scale, Fraction.ofNat] using hcoefficient

/-- A decimal has no finite number nearest to it exactly from the bound on. -/
theorem toFloat?_eq_none_iff : d.toFloat? = none ↔ Binary64.overflowBound ≤ d.toRat := by
  rw [← infinityWord_le_nearestWord_iff, toFloat?, ite_eq_right_iff, imp_iff_not (by simp), not_lt]

end Decimal

end Calculator
