import Calculator.Number.Shortest
import Calculator.Proofs.Number.DecimalGrid
import Calculator.Proofs.Number.ExactValue
import Calculator.Proofs.Number.Overflow

/-!
# Decimals that read back

The word nearest to a fraction depends on nothing but the rational number that the fraction stands for
(`nearestWord_congr`), and the word nearest to the magnitude of a word is that word (`nearestWord_magnitude`):
the magnitude is scaled by the exponent from which it has been unpacked, and there is nothing to round. So the
exact decimal of a word reads back as the word, and the shortest one does in any case, for it is exact unless it
has been tried (`nearestWord_shortestDecimal`).
-/

set_option autoImplicit false

namespace Calculator

/-! ## Equal fractions -/

namespace Fraction

variable {v w : Fraction}

/-- Fractions of one value are zero together. -/
theorem num_eq_zero_congr (h : v.toRat = w.toRat) : v.num = 0 ↔ w.num = 0 := by
  rw [← toRat_eq_zero_iff, ← toRat_eq_zero_iff, h]

/-- Fractions of one value are rounded alike. -/
theorem round_congr (h : v.toRat = w.toRat) : v.round = w.round :=
  Nat.le_antisymm (round_mono h.le) (round_mono h.ge)

/-- A power of two that is at most a fraction is at most the greatest such power. -/
theorem le_floorLog2 (hv : v.num ≠ 0) {exponent : Int} (h : (2 : ℚ) ^ exponent ≤ v.toRat) :
    exponent ≤ v.floorLog2 := by
  have hlt := h.trans_lt (v.floorLog2_bounds hv).2
  have hexponent := (zpow_lt_zpow_iff_right₀ one_lt_two).mp hlt
  omega

/-- A fraction below a power of two has a smaller binary exponent. -/
theorem floorLog2_lt (hv : v.num ≠ 0) {exponent : Int} (h : v.toRat < (2 : ℚ) ^ exponent) :
    v.floorLog2 < exponent :=
  (zpow_lt_zpow_iff_right₀ one_lt_two).mp ((v.floorLog2_bounds hv).1.trans_lt h)

/-- Fractions of one value have the same binary exponent. -/
theorem floorLog2_congr (hv : v.num ≠ 0) (h : v.toRat = w.toRat) : v.floorLog2 = w.floorLog2 := by
  have hw : w.num ≠ 0 := mt (num_eq_zero_congr h).mpr hv
  apply le_antisymm
  · exact le_floorLog2 hw (h ▸ (v.floorLog2_bounds hv).1)
  · exact le_floorLog2 hv (h ▸ (w.floorLog2_bounds hw).1)

end Fraction

namespace Binary64

/-! ## Rounding to a word -/

variable {v w : Fraction}

/-- Fractions that stand for one number have the same nearest word. -/
theorem nearestWord_congr (h : v.toRat = w.toRat) : nearestWord v = nearestWord w := by
  by_cases hv : v.num = 0
  · have hw := (Fraction.num_eq_zero_congr h).mp hv
    rw [nearestWord, nearestWord, if_pos hv, if_pos hw]
  · have hw := mt (Fraction.num_eq_zero_congr h).mpr hv
    have hexponent : roundingExponent v = roundingExponent w := by
      rw [roundingExponent, roundingExponent, Fraction.floorLog2_congr hv h]
    have hround : (v.mulTwoPow (-roundingExponent w)).round = (w.mulTwoPow (-roundingExponent w)).round := by
      apply Fraction.round_congr
      rw [Fraction.toRat_mulTwoPow, Fraction.toRat_mulTwoPow, h]
    rw [nearestWord_eq hv, nearestWord_eq hw, hexponent, hround]

section Unpacked

variable {m : Nat} {exponent : Int} (h : IsUnpacked m exponent) (hv : v.toRat = m * (2 : ℚ) ^ exponent)
include h hv

/-- A magnitude is scaled by the exponent from which it has been unpacked. -/
theorem roundingExponent_of_isUnpacked (hm : v.num ≠ 0) : roundingExponent v = exponent := by
  have hleast := h.least
  have hunit : (0 : ℚ) < (2 : ℚ) ^ exponent := zpow_pos two_pos exponent
  have hhigh : v.floorLog2 < 53 + exponent := by
    apply Fraction.floorLog2_lt hm
    rw [hv, zpow_add₀ two_ne_zero]
    exact mul_lt_mul_of_pos_right (by exact_mod_cast h.below) hunit
  unfold roundingExponent
  rcases h.full with hexponent | hfull
  · omega
  · have hlow : 52 + exponent ≤ v.floorLog2 := by
      apply Fraction.le_floorLog2 hm
      rw [hv, zpow_add₀ two_ne_zero]
      exact mul_le_mul_of_nonneg_right (by exact_mod_cast hfull) hunit.le
    omega

/-- A fraction that is a mantissa at an exponent has the word of these two for its nearest one. -/
theorem nearestWord_of_isUnpacked : nearestWord v = (exponent + 1074).toNat * 2 ^ 52 + m := by
  have hunit : (2 : ℚ) ^ exponent ≠ 0 := zpow_ne_zero exponent two_ne_zero
  by_cases hzero : v.num = 0
  · -- Nothing but the least exponent leaves room for zero.
    have hm : m = 0 := by
      rw [← v.toRat_eq_zero_iff, hv, mul_eq_zero, or_iff_left hunit] at hzero
      exact_mod_cast hzero
    have hexponent := h.full.resolve_right (by omega)
    rw [nearestWord, if_pos hzero, hm, hexponent]
    rfl
  · have hscaled : (v.mulTwoPow (-exponent)).toRat = m := by
      rw [toRat_scaled, hv, mul_div_cancel_right₀ _ hunit]
    rw [nearestWord_eq hzero, roundingExponent_of_isUnpacked h hv hzero, Fraction.round_of_toRat_eq hscaled]

end Unpacked

/-- The word nearest to the magnitude of a word is the word, less its sign. -/
theorem nearestWord_magnitude (word : Nat) : nearestWord (magnitude word) = word % 2 ^ 63 := by
  obtain ⟨m, exponent, hunpacked, hvalue, hword⟩ := exists_toRat_magnitude word
  rw [nearestWord_of_isUnpacked hunpacked hvalue, hword]

/-! ## Exact and shortest decimals -/

/-- A natural number scaled by a power of two has a power of two for its denominator. -/
theorem den_ofNat_mulTwoPow (n : Nat) (exponent : Int) :
    ((Fraction.ofNat n).mulTwoPow exponent).den = 2 ^ (-exponent).toNat := Nat.one_mul _

/-- The denominator of the magnitude of a word is a power of two. -/
theorem exists_den_magnitude (word : Nat) : ∃ places, (magnitude word).den = 2 ^ places := by
  unfold magnitude
  simp only
  split <;> exact ⟨_, den_ofNat_mulTwoPow _ _⟩

/-- As many factors of five make the denominator a power of ten. -/
theorem toRat_exactDecimal (word : Nat) : (exactDecimal word).toRat = (magnitude word).toRat := by
  obtain ⟨places, hden⟩ := exists_den_magnitude word
  have hpower : (10 : ℚ) ^ places = 5 ^ places * 2 ^ places := by
    rw [← mul_pow]
    norm_num
  have hfive : (5 : ℚ) ^ places ≠ 0 := pow_ne_zero places (by norm_num)
  simp only [exactDecimal, Decimal.toRat, Fraction.toRat, hden, Nat.log2_two_pow, Nat.pow_eq]
  rw [zpow_neg, zpow_natCast, ← div_eq_mul_inv, hpower]
  push_cast
  rw [mul_comm, mul_div_mul_left _ _ hfive]

/-- The shortest decimal of a word reads back as the word. -/
theorem nearestWord_shortestDecimal {word : Nat} (h : word < 2 ^ 63) :
    nearestWord (shortestDecimal word).value = word := by
  unfold shortestDecimal
  simp only
  cases hhit : (List.range 17).findSome? fun k => ((magnitude word).neighbours (k + 1)).find? (readsBack word) with
  | none =>
      have hvalue : (exactDecimal word).value.toRat = (magnitude word).toRat := by
        rw [Decimal.toRat_value, toRat_exactDecimal]
      rw [Option.getD_none, nearestWord_congr hvalue, nearestWord_magnitude, Nat.mod_eq_of_lt h]
  | some d =>
      obtain ⟨k, -, hk⟩ := List.exists_of_findSome?_eq_some hhit
      have hback : readsBack word d = true := List.find?_some hk
      exact eq_of_beq hback

end Binary64

end Calculator
