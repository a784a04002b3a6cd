import Calculator.Number.Fraction
import Mathlib.Algebra.Order.Field.Power
import Mathlib.Algebra.Order.Floor.Semifield
import Mathlib.Data.Rat.Floor
import Mathlib.Tactic.Linarith
import Mathlib.Tactic.NormNum

/-!
# Fractions as rational numbers

A fraction stands for a rational number, and its operations are those of rational numbers: scaling multiplies
by a power (`toRat_mulTwoPow`, `toRat_mulTenPow`), rounding goes to the nearest natural number and from the
middle between two to the even one (`abs_round_sub_le`, `even_round`), and the exponent that is found from the
lengths of numerator and denominator, mended by one comparison, is that of the greatest power of two which is
not above the fraction (`floorLog2_bounds`), and so for powers of ten (`floorLog10_bounds`).
-/

set_option autoImplicit false

namespace Calculator

/-! ## Rounded quotients -/

/-- A rounded quotient, by what the remainder is in comparison with half of the divisor. -/
theorem roundDiv_cases (num den : Nat) :
    (2 * (num % den) < den ∧ roundDiv num den = num / den) ∨
      (den < 2 * (num % den) ∧ roundDiv num den = num / den + 1) ∨
      (2 * (num % den) = den ∧ roundDiv num den = num / den + num / den % 2) := by
  simp only [roundDiv]
  split
  · exact .inl ⟨by assumption, rfl⟩
  · split
    · exact .inr (.inl ⟨by assumption, rfl⟩)
    · exact .inr (.inr ⟨by omega, rfl⟩)

namespace Fraction

/-- The rational number that a fraction stands for. -/
def toRat (v : Fraction) : ℚ := v.num / v.den

variable (v : Fraction)

/-- The denominator of a fraction is positive as a rational number too. -/
theorem den_pos_rat : (0 : ℚ) < v.den := Nat.cast_pos.mpr v.den_pos

/-- A natural number stands for itself. -/
@[simp] theorem toRat_ofNat (n : Nat) : (ofNat n).toRat = n := by
  simp [toRat, ofNat]

/-- Scaling a fraction by a power multiplies what it stands for by that power. -/
theorem toRat_scale (base : Nat) (base_pos : 0 < base) (exponent : Int) :
    (v.scale base base_pos exponent).toRat = v.toRat * (base : ℚ) ^ exponent := by
  have hbase : (base : ℚ) ≠ 0 := Nat.cast_ne_zero.mpr base_pos.ne'
  have hpower : ((base : ℚ) ^ exponent.toNat) / (base : ℚ) ^ (-exponent).toNat = (base : ℚ) ^ exponent := by
    rw [← zpow_natCast, ← zpow_natCast, ← zpow_sub₀ hbase]
    congr 1
    omega
  simp only [toRat, scale, Nat.pow_eq, Nat.cast_mul, Nat.cast_pow]
  rw [← hpower, div_mul_div_comm]

/-- Scaling by a power of two multiplies by it. -/
theorem toRat_mulTwoPow (exponent : Int) :
    (v.mulTwoPow exponent).toRat = v.toRat * (2 : ℚ) ^ exponent := v.toRat_scale 2 _ exponent

/-- Scaling by a power of ten multiplies by it. -/
theorem toRat_mulTenPow (exponent : Int) :
    (v.mulTenPow exponent).toRat = v.toRat * (10 : ℚ) ^ exponent := v.toRat_scale 10 _ exponent

/-- The floor of a fraction is that of the rational number. -/
theorem floor_eq : v.floor = ⌊v.toRat⌋₊ := (Nat.floor_div_eq_div v.num v.den).symm

/-! ## Rounding -/

/-- A fraction is a natural number and a part below one; it is rounded down, up, or from the middle to the
even neighbour, by what that part is in comparison with a half. -/
theorem exists_round_eq : ∃ (q : Nat) (part : ℚ), v.toRat = q + part ∧ 0 ≤ part ∧ part < 1 ∧
    ((part < 1 / 2 ∧ v.round = q) ∨ (1 / 2 < part ∧ v.round = q + 1) ∨
      (part = 1 / 2 ∧ v.round = q + q % 2)) := by
  have hden := v.den_pos_rat
  have hdivision : (v.den : ℚ) * (v.num / v.den : Nat) + (v.num % v.den : Nat) = v.num := by
    exact_mod_cast Nat.div_add_mod v.num v.den
  have hrest : ((v.num % v.den : Nat) : ℚ) < v.den := by
    exact_mod_cast Nat.mod_lt v.num v.den_pos
  refine ⟨v.num / v.den, (v.num % v.den : Nat) / (v.den : ℚ), ?_, by positivity,
    (div_lt_one hden).mpr hrest, ?_⟩
  · rw [toRat, div_eq_iff hden.ne', add_mul, div_mul_cancel₀ _ hden.ne']
    linarith
  · rw [div_lt_iff₀ hden, lt_div_iff₀ hden, div_eq_iff hden.ne']
    rcases roundDiv_cases v.num v.den with ⟨hlt, hround⟩ | ⟨hlt, hround⟩ | ⟨heq, hround⟩
    · have hcast : (2 * (v.num % v.den : Nat) : ℚ) < v.den := by exact_mod_cast hlt
      exact .inl ⟨by linarith, hround⟩
    · have hcast : (v.den : ℚ) < 2 * (v.num % v.den : Nat) := by exact_mod_cast hlt
      exact .inr (.inl ⟨by linarith, hround⟩)
    · have hcast : (2 * (v.num % v.den : Nat) : ℚ) = v.den := by exact_mod_cast heq
      exact .inr (.inr ⟨by linarith, hround⟩)

/-- A fraction is rounded by a half at most. -/
theorem abs_round_sub_le : |(v.round : ℚ) - v.toRat| ≤ 1 / 2 := by
  obtain ⟨q, part, hvalue, hnonneg, hlt, hcases⟩ := v.exists_round_eq
  rw [hvalue, abs_le]
  rcases hcases with ⟨hpart, hround⟩ | ⟨hpart, hround⟩ | ⟨hpart, hround⟩
  · rw [hround]
    constructor <;> linarith
  · rw [hround, Nat.cast_add, Nat.cast_one]
    constructor <;> linarith
  · have hparity : ((q % 2 : Nat) : ℚ) ≤ 1 := by exact_mod_cast Nat.le_of_lt_succ (Nat.mod_lt q two_pos)
    have hsign : (0 : ℚ) ≤ (q % 2 : Nat) := Nat.cast_nonneg _
    rw [hround, Nat.cast_add]
    constructor <;> linarith

/-- The middle between two natural numbers is rounded to the even one. -/
theorem even_round (h : |(v.round : ℚ) - v.toRat| = 1 / 2) : Even v.round := by
  obtain ⟨q, part, hvalue, hnonneg, hlt, hcases⟩ := v.exists_round_eq
  rw [hvalue] at h
  rcases hcases with ⟨hpart, hround⟩ | ⟨hpart, hround⟩ | ⟨hpart, hround⟩
  · exfalso
    rw [hround, abs_eq (by norm_num)] at h
    rcases h with h | h <;> linarith
  · exfalso
    rw [hround, Nat.cast_add, Nat.cast_one, abs_eq (by norm_num)] at h
    rcases h with h | h <;> linarith
  · rw [hround, Nat.even_iff]
    omega

variable {v} {k : Nat}

/-- A fraction that is less than half above a whole number is rounded to that number at most. -/
theorem round_le (h : v.toRat < k + 1 / 2) : v.round ≤ k := by
  have hround := (abs_le.mp v.abs_round_sub_le).2
  have hlt : (v.round : ℚ) < (k + 1 : Nat) := by
    rw [Nat.cast_add, Nat.cast_one]
    linarith
  exact Nat.lt_succ_iff.mp (Nat.cast_lt.mp hlt)

/-- A fraction is rounded to no less than a whole number below it. -/
theorem le_round (h : k ≤ v.toRat) : k ≤ v.round := by
  have hround := (abs_le.mp v.abs_round_sub_le).1
  have hlt : (k : ℚ) < (v.round + 1 : Nat) := by
    rw [Nat.cast_add, Nat.cast_one]
    linarith
  exact Nat.lt_succ_iff.mp (Nat.cast_lt.mp hlt)

/-- From the middle before it on, a fraction is rounded to an even number or beyond. -/
theorem le_round_of_even (hk : Even k) (h : k - 1 / 2 ≤ v.toRat) : k ≤ v.round := by
  have hround := (abs_le.mp v.abs_round_sub_le).1
  by_contra hbelow
  have hbelow' : (v.round : ℚ) + 1 ≤ k := by exact_mod_cast Nat.lt_of_not_le hbelow
  -- Then the fraction is that middle, and it has been rounded to the odd number before.
  have hmiddle : |(v.round : ℚ) - v.toRat| = 1 / 2 := by
    rw [abs_eq (by norm_num)]
    exact .inr (by linarith)
  have hvalue : (v.round : ℚ) + 1 = k := by linarith
  have hsucc : v.round + 1 = k := by exact_mod_cast hvalue
  have heven := v.even_round hmiddle
  rw [← hsucc, Nat.even_add_one] at hk
  exact hk heven

/-! ## The greatest power of a base -/

variable (v)

/-- An estimate of the exponent of a fraction that is right or too large by one is mended by a comparison. -/
theorem exponent_bounds {base : Nat} (base_pos : 0 < base) {estimate : Int}
    (hlow : (base : ℚ) ^ (estimate - 1) ≤ v.toRat) (hhigh : v.toRat < (base : ℚ) ^ (estimate + 1)) :
    let exponent := if (v.scale base base_pos (-estimate)).floor = 0 then estimate - 1 else estimate
    (base : ℚ) ^ exponent ≤ v.toRat ∧ v.toRat < (base : ℚ) ^ (exponent + 1) := by
  have hbase : (0 : ℚ) < base := Nat.cast_pos.mpr base_pos
  have hzero : (v.scale base base_pos (-estimate)).floor = 0 ↔ v.toRat < (base : ℚ) ^ estimate := by
    rw [floor_eq, Nat.floor_eq_zero, toRat_scale, zpow_neg, ← div_eq_mul_inv,
      div_lt_one (zpow_pos hbase estimate)]
  intro exponent
  by_cases hbelow : v.toRat < (base : ℚ) ^ estimate
  · have hexponent : exponent = estimate - 1 := if_pos (hzero.mpr hbelow)
    rw [hexponent, sub_add_cancel]
    exact ⟨hlow, hbelow⟩
  · have hexponent : exponent = estimate := if_neg (mt hzero.mp hbelow)
    rw [hexponent]
    exact ⟨not_lt.mp hbelow, hhigh⟩

/-- Powers of a base that enclose numerator and denominator give an estimate of the exponent. -/
theorem zpow_sub_bounds {base m n : Nat} (base_pos : 0 < base) (hnum : base ^ m ≤ v.num)
    (hnum' : v.num < base ^ (m + 1)) (hden : base ^ n ≤ v.den) (hden' : v.den < base ^ (n + 1)) :
    (base : ℚ) ^ ((m : Int) - n - 1) ≤ v.toRat ∧ v.toRat < (base : ℚ) ^ ((m : Int) - n + 1) := by
  have hbase : (0 : ℚ) < base := Nat.cast_pos.mpr base_pos
  have hlow : (base : ℚ) ^ m ≤ v.num := by exact_mod_cast hnum
  have hhigh : (v.num : ℚ) < base ^ (m + 1) := by exact_mod_cast hnum'
  have hlow' : (base : ℚ) ^ n ≤ v.den := by exact_mod_cast hden
  have hhigh' : (v.den : ℚ) < base ^ (n + 1) := by exact_mod_cast hden'
  constructor
  · rw [toRat, le_div_iff₀ v.den_pos_rat]
    calc (base : ℚ) ^ ((m : Int) - n - 1) * v.den
        ≤ base ^ ((m : Int) - n - 1) * base ^ (n + 1) := by gcongr
      _ = base ^ m := by
          rw [← zpow_natCast, ← zpow_natCast, ← zpow_add₀ hbase.ne']
          congr 1
          push_cast
          omega
      _ ≤ v.num := hlow
  · rw [toRat, div_lt_iff₀ v.den_pos_rat]
    calc (v.num : ℚ) < base ^ (m + 1) := hhigh
      _ = base ^ ((m : Int) - n + 1) * base ^ n := by
          rw [← zpow_natCast, ← zpow_natCast, ← zpow_add₀ hbase.ne']
          congr 1
          push_cast
          omega
      _ ≤ base ^ ((m : Int) - n + 1) * v.den := by gcongr

/-- A positive fraction lies between the power of two that is found and the next one. -/
theorem floorLog2_bounds (h : v.num ≠ 0) :
    (2 : ℚ) ^ v.floorLog2 ≤ v.toRat ∧ v.toRat < (2 : ℚ) ^ (v.floorLog2 + 1) := by
  obtain ⟨hlow, hhigh⟩ := v.zpow_sub_bounds two_pos (Nat.log2_self_le h) Nat.lt_log2_self
    (Nat.log2_self_le v.den_pos.ne') Nat.lt_log2_self
  exact v.exponent_bounds two_pos hlow hhigh

/-- A number has one digit more than the exponent of the greatest power of ten that is not above it. -/
theorem exists_length_toDigits {n : Nat} (h : n ≠ 0) :
    ∃ m, (Nat.toDigits 10 n).length = m + 1 ∧ 10 ^ m ≤ n ∧ n < 10 ^ (m + 1) := by
  obtain ⟨m, hm⟩ := Nat.exists_eq_add_one.mpr (Nat.length_toDigits_pos (b := 10) (n := n))
  refine ⟨m, hm, ?_, (Nat.length_toDigits_le_iff (by decide) m.succ_pos).mp hm.le⟩
  cases m with
  | zero => exact Nat.one_le_iff_ne_zero.mpr h
  | succ m =>
      rw [← not_lt, ← Nat.length_toDigits_le_iff (by decide) m.succ_pos]
      omega

/-- A positive fraction lies between the power of ten that is found and the next one. -/
theorem floorLog10_bounds (h : v.num ≠ 0) :
    (10 : ℚ) ^ v.floorLog10 ≤ v.toRat ∧ v.toRat < (10 : ℚ) ^ (v.floorLog10 + 1) := by
  obtain ⟨m, hm, hnum, hnum'⟩ := exists_length_toDigits h
  obtain ⟨n, hn, hden, hden'⟩ := exists_length_toDigits v.den_pos.ne'
  obtain ⟨hlow, hhigh⟩ := v.zpow_sub_bounds (by decide) hnum hnum' hden hden'
  have hestimate : ((Nat.toDigits 10 v.num).length : Int) - (Nat.toDigits 10 v.den).length = m - n := by
    omega
  have hbounds := v.exponent_bounds (show 0 < 10 by decide) hlow hhigh
  rw [← hestimate] at hbounds
  exact hbounds

/-! ## Comparisons -/

/-- A fraction is not negative. -/
theorem toRat_nonneg : 0 ≤ v.toRat := div_nonneg (Nat.cast_nonneg _) (Nat.cast_nonneg _)

/-- A fraction is zero exactly if its numerator is. -/
theorem toRat_eq_zero_iff : v.toRat = 0 ↔ v.num = 0 := by
  rw [toRat, div_eq_zero_iff, Nat.cast_eq_zero, Nat.cast_eq_zero, or_iff_left v.den_pos.ne']

/-- Fractions are compared as the rational numbers are. -/
theorem atMost_iff (w : Fraction) : v.atMost w = true ↔ v.toRat ≤ w.toRat := by
  rw [atMost, decide_eq_true_iff, toRat, toRat, div_le_div_iff₀ v.den_pos_rat w.den_pos_rat]
  exact_mod_cast Iff.rfl

/-- A fraction is a natural number exactly if it stands for a whole number. -/
theorem isWhole_iff : v.isWhole = true ↔ ∃ z : Int, (z : ℚ) = v.toRat := by
  rw [isWhole, beq_iff_eq, ← Nat.dvd_iff_mod_eq_zero]
  constructor
  · rintro ⟨q, hq⟩
    refine ⟨q, ?_⟩
    rw [toRat, hq, Nat.cast_mul, mul_div_cancel_left₀ _ v.den_pos_rat.ne', Int.cast_natCast]
  · rintro ⟨z, hz⟩
    rw [toRat, eq_div_iff v.den_pos_rat.ne'] at hz
    have hnum : z * (v.den : Int) = v.num := by exact_mod_cast hz
    exact Int.natCast_dvd_natCast.mp ⟨z, by rw [← hnum, mul_comm]⟩

/-- A whole fraction is its own floor. -/
theorem toRat_floor_of_isWhole (h : v.isWhole = true) : (v.floor : ℚ) = v.toRat := by
  obtain ⟨z, hz⟩ := v.isWhole_iff.mp h
  have hnonneg : 0 ≤ z := by exact_mod_cast hz.symm ▸ v.toRat_nonneg
  obtain ⟨q, rfl⟩ := Int.eq_ofNat_of_zero_le hnonneg
  rw [floor_eq, ← hz, Int.cast_natCast, Nat.floor_natCast]

end Fraction

end Calculator
