import Calculator.Number.Display
import Calculator.Proofs.Number.Binary64
import Calculator.Proofs.Number.Fraction
import Mathlib.Tactic.Ring

/-!
# Exact values of numbers

A finite number stands for a rational number, and every magnitude is a whole number of at most fifty-three bits
times a power of two. So the finite numbers around a millionth lie on a grid of width 2^-72, and the point of the
grid from which on magnitudes are displayed without an exponent is the number nearest to a millionth
(`isNearest_leastPositional`).
-/

set_option autoImplicit false

namespace Calculator

/-- A rational number with its sign. -/
def signed (negative : Bool) (q : ℚ) : ℚ := if negative then -q else q

/-- Zero has no sign. -/
theorem signed_zero (negative : Bool) : signed negative 0 = 0 := by
  cases negative
  · rfl
  · exact neg_zero

/-- The sign does not change the absolute value. -/
theorem abs_signed (negative : Bool) (q : ℚ) : |signed negative q| = |q| := by
  cases negative
  · rfl
  · exact abs_neg q

/-- Numbers of one sign are as far apart as their magnitudes. -/
theorem abs_signed_sub_signed (negative : Bool) (p q : ℚ) :
    |signed negative p - signed negative q| = |p - q| := by
  cases negative
  · rfl
  · have hswap : -p - -q = -(p - q) := by ring
    exact (congrArg abs hswap).trans (abs_neg _)

/-- The sign does not matter for whether a number is whole. -/
theorem exists_intCast_eq_signed_iff (negative : Bool) (q : ℚ) :
    (∃ z : Int, (z : ℚ) = signed negative q) ↔ ∃ z : Int, (z : ℚ) = q := by
  cases negative
  · rfl
  · constructor
    · rintro ⟨z, hz⟩
      exact ⟨-z, by rw [Int.cast_neg, hz]; exact neg_neg q⟩
    · rintro ⟨z, rfl⟩
      exact ⟨-z, Int.cast_neg z⟩

namespace Binary64

/-- The rational number that a finite number stands for. -/
def exactValue? (x : Float) : Option ℚ :=
  match datum x with
  | .finite negative v => some (signed negative v.toRat)
  | .infinite _ | .nan => none

/-- `IsNearest q d`: there is a finite number of the value `d`, and all others are farther from `q`. -/
def IsNearest (q d : ℚ) : Prop :=
  (∃ x, exactValue? x = some d) ∧ ∀ x e, exactValue? x = some e → e ≠ d → |d - q| < |e - q|

/-- The exact value of a finite number is its magnitude with its sign. -/
theorem exactValue?_eq_some_iff {x : Float} {r : ℚ} : exactValue? x = some r ↔
    ∃ negative v, datum x = .finite negative v ∧ r = signed negative v.toRat := by
  unfold exactValue?
  cases datum x <;> simp [eq_comm]

/-- The magnitude of a finite number is that of a word. -/
theorem exists_magnitude_of_datum {x : Float} {negative : Bool} {v : Fraction}
    (h : datum x = .finite negative v) : ∃ word, v = magnitude word := by
  unfold datum at h
  simp only at h
  split at h
  · split at h <;> cases h
  · cases h
    exact ⟨_, rfl⟩

/-- `IsUnpacked m exponent`: a word is unpacked as `m` times that power of two. -/
structure IsUnpacked (m : Nat) (exponent : Int) : Prop where
  below : m < 2 ^ 53
  least : -1074 ≤ exponent
  full : exponent = -1074 ∨ 2 ^ 52 ≤ m

/-- A magnitude has at most fifty-three bits, and the word is told by them and by the exponent. -/
theorem exists_toRat_magnitude (word : Nat) :
    ∃ m exponent, IsUnpacked m exponent ∧ (magnitude word).toRat = m * (2 : ℚ) ^ exponent ∧
      (exponent + 1074).toNat * 2 ^ 52 + m = word % 2 ^ 63 := by
  have hfraction : word % 2 ^ 52 < 2 ^ 52 := Nat.mod_lt word (by decide)
  unfold magnitude
  simp only [Nat.pow_eq]
  split
  · refine ⟨word % 2 ^ 52, -1074, ⟨by omega, le_rfl, .inl rfl⟩, ?_, ?_⟩
    · rw [Fraction.toRat_mulTwoPow, Fraction.toRat_ofNat]
    · omega
  · refine ⟨2 ^ 52 + word % 2 ^ 52, (word / 2 ^ 52 % 2 ^ 11 : Nat) - 1075, ⟨by omega, by omega, .inr (by omega)⟩,
      ?_, ?_⟩
    · rw [Fraction.toRat_mulTwoPow, Fraction.toRat_ofNat]
    · omega

/-! ## The number nearest to a millionth -/

/-- The distance of neighbouring numbers around a millionth. -/
def millionthUnit : ℚ := (2 : ℚ) ^ (-72 : Int)

/-- The distance of neighbouring numbers is positive. -/
theorem millionthUnit_pos : 0 < millionthUnit := zpow_pos two_pos _

/-- The least number that is shown without an exponent is a multiple of that distance. -/
theorem toRat_leastPositional : Number.leastPositional.toRat = 4722366482869645 * millionthUnit := by
  rw [Number.leastPositional, Fraction.toRat_mulTwoPow, Fraction.toRat_ofNat, millionthUnit]
  norm_num

/-- A millionth lies between two points of the grid, nearer to the lower one. -/
theorem millionth_eq : (10 : ℚ) ^ (-6 : Int) = 4722366482869645.213696 * millionthUnit := by
  rw [millionthUnit]
  norm_num

/-- Every other magnitude is at least one unit away from the point of the grid before a millionth. -/
theorem magnitude_apart_from_leastPositional {word : Nat}
    (hne : (magnitude word).toRat ≠ Number.leastPositional.toRat) :
    (magnitude word).toRat ≤ 4722366482869644 * millionthUnit ∨
      4722366482869646 * millionthUnit ≤ (magnitude word).toRat := by
  obtain ⟨m, exponent, hunpacked, hvalue, -⟩ := exists_toRat_magnitude word
  have hunit := millionthUnit_pos
  rw [hvalue, toRat_leastPositional] at hne
  rw [hvalue]
  by_cases hcoarse : -72 ≤ exponent
  · -- The magnitude is a point of the grid.
    obtain ⟨k, hk⟩ := Int.eq_ofNat_of_zero_le (show 0 ≤ exponent + 72 by omega)
    have hgrid : (m : ℚ) * (2 : ℚ) ^ exponent = (m * 2 ^ k : Nat) * millionthUnit := by
      have hexponent : exponent = (k : Int) + -72 := by omega
      rw [hexponent, zpow_add₀ two_ne_zero, zpow_natCast, millionthUnit]
      push_cast
      ring
    rw [hgrid] at hne ⊢
    have hpoint : m * 2 ^ k ≠ 4722366482869645 := by
      intro hpoint
      rw [hpoint] at hne
      exact hne (by norm_num)
    rcases Nat.lt_or_gt_of_ne hpoint with hbelow | habove
    · have hle : ((m * 2 ^ k : Nat) : ℚ) ≤ 4722366482869644 := by exact_mod_cast Nat.le_of_lt_succ hbelow
      exact .inl (mul_le_mul_of_nonneg_right hle hunit.le)
    · have hle : (4722366482869646 : ℚ) ≤ (m * 2 ^ k : Nat) := by exact_mod_cast habove
      exact .inr (mul_le_mul_of_nonneg_right hle hunit.le)
  · -- The grid is finer there, but it ends before.
    left
    have hsmall : (m : ℚ) ≤ 2 ^ 53 := by exact_mod_cast hunpacked.below.le
    have hpower : (2 : ℚ) ^ exponent ≤ (2 : ℚ) ^ (-73 : Int) := zpow_le_zpow_right₀ one_le_two (by omega)
    calc (m : ℚ) * (2 : ℚ) ^ exponent ≤ 2 ^ 53 * (2 : ℚ) ^ (-73 : Int) := by gcongr
      _ = 4503599627370496 * millionthUnit := by
          rw [millionthUnit]
          norm_num
      _ ≤ 4722366482869644 * millionthUnit := mul_le_mul_of_nonneg_right (by norm_num) hunit.le

/-- Some finite number has the least value that is shown without an exponent. -/
theorem exactValue?_leastPositional :
    ∃ x, exactValue? x = some Number.leastPositional.toRat := by
  have hfinite : 1003 * 2 ^ 52 + 218766855499149 < infinityWord := by decide
  refine ⟨Float.ofBits (UInt64.ofNat (1003 * 2 ^ 52 + 218766855499149)), ?_⟩
  rw [exactValue?_eq_some_iff]
  exact ⟨false, _, datum_ofBits hfinite, rfl⟩

/-- Magnitudes are displayed without an exponent from the number nearest to a millionth on. -/
theorem isNearest_leastPositional : IsNearest ((10 : ℚ) ^ (-6 : Int)) Number.leastPositional.toRat := by
  refine ⟨exactValue?_leastPositional, ?_⟩
  intro x e he hne
  have hunit := millionthUnit_pos
  have hdistance : |Number.leastPositional.toRat - (10 : ℚ) ^ (-6 : Int)| = 0.213696 * millionthUnit := by
    rw [toRat_leastPositional, millionth_eq, ← sub_mul, abs_mul, abs_of_pos hunit]
    norm_num
  have hapart : e ≤ 4722366482869644 * millionthUnit ∨ 4722366482869646 * millionthUnit ≤ e := by
    obtain ⟨negative, v, hv, rfl⟩ := exactValue?_eq_some_iff.mp he
    obtain ⟨word, rfl⟩ := exists_magnitude_of_datum hv
    cases negative with
    | true =>
        have hnonneg := (magnitude word).toRat_nonneg
        have hsigned : signed true (magnitude word).toRat = -(magnitude word).toRat := rfl
        left
        linarith
    | false => exact magnitude_apart_from_leastPositional hne
  rw [hdistance, lt_abs, millionth_eq]
  rcases hapart with hbelow | habove
  · right
    linarith
  · left
    linarith

end Binary64

end Calculator
