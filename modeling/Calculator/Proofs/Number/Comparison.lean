import Calculator.Proofs.Number.ExactValue
import Mathlib.Order.Compare

/-!
# Comparing numbers

Finite numbers are compared by their signs, then by their exponents, then by their fractions. The fractions have
fifty-three bits unless the exponent is the least one, so a greater exponent always goes with a greater magnitude
(`IsUnpacked.lt_of_exponent_lt`), and numbers compare as the rational numbers do that they stand for
(`compare_unpack`).
-/

set_option autoImplicit false

namespace Calculator

open Float.Model (UnpackedFloat)
open Float.Model.UnpackedFloat

namespace Binary64

variable {b : BitVec Float.Model.Format.binary64.numBits}

/-- The exponent of a word is compared as a number. -/
theorem unpackExponent_eq_iff {field : BitVec 11} :
    unpackExponent b = field ↔ b.toNat / 2 ^ 52 % 2 ^ 11 = field.toNat := by
  rw [← toNat_unpackExponent]
  exact BitVec.toNat_inj.symm

/-- A word is negative exactly if its highest bit is set. -/
theorem ofBitVec_unpackSign : (Sign.ofBitVec (unpackSign b) == .negative) = (b.toNat / 2 ^ 63 % 2 == 1) := by
  have hsign : unpackSign b = 0#1 ↔ b.toNat / 2 ^ 63 % 2 = 0 := by
    rw [← toNat_unpackSign]
    exact BitVec.toNat_inj.symm
  unfold Sign.ofBitVec
  split
  · next hpositive =>
    rw [hsign.mp hpositive]
    rfl
  · next hnegative =>
    have hone : b.toNat / 2 ^ 63 % 2 = 1 := by
      have hzero := mt hsign.mpr hnegative
      omega
    rw [hone]
    rfl

/-- A finite word is unpacked as a zero or as a positive magnitude, with its sign. -/
theorem unpack_cases (hfinite : b.toNat / 2 ^ 52 % 2 ^ 11 ≠ 2047) :
    (unpack .binary64 b = .zero (Sign.ofBitVec (unpackSign b)) ∧ (magnitude b.toNat).toRat = 0) ∨
      ∃ m exponent hm, unpack .binary64 b = .finite (Sign.ofBitVec (unpackSign b)) m exponent hm ∧
        IsUnpacked m exponent ∧ (magnitude b.toNat).toRat = m * (2 : ℚ) ^ exponent := by
  have hfraction : (unpackMantissa b).toNat < 2 ^ 52 := (unpackMantissa b).isLt
  have hinfinite : unpackExponent b ≠ -1#11 := mt unpackExponent_eq_iff.mp hfinite
  have hbias : (Float.Model.Format.binary64.exponentBias : Int) + (52 : Nat) = 1075 := rfl
  unfold unpack magnitude
  simp only [if_neg hinfinite, toNat_unpackExponent, hbias, Nat.pow_eq, ← toNat_unpackMantissa]
  by_cases hfield : b.toNat / 2 ^ 52 % 2 ^ 11 = 0
  · rw [if_pos hfield, if_pos (unpackExponent_eq_iff.mpr hfield), Fraction.toRat_mulTwoPow, Fraction.toRat_ofNat]
    by_cases hzero : unpackMantissa b = 0#52
    · rw [dif_pos hzero, hzero]
      exact .inl ⟨rfl, by simp⟩
    · have hpos : 0 < (unpackMantissa b).toNat := by
        rw [Nat.pos_iff_ne_zero]
        exact fun hnone => hzero (BitVec.eq_of_toNat_eq hnone)
      rw [dif_neg hzero, hfield]
      exact .inr ⟨_, _, hpos, rfl, ⟨by omega, le_rfl, .inl rfl⟩, rfl⟩
  · have happend := toNat_one_append_unpackMantissa (b := b)
    have hpos : 0 < (1#1 ++ unpackMantissa b).toNat := by omega
    rw [if_neg hfield, if_neg (mt unpackExponent_eq_iff.mp hfield), Fraction.toRat_mulTwoPow, Fraction.toRat_ofNat]
    refine .inr ⟨_, _, hpos, rfl, ⟨?_, ?_, .inr ?_⟩, by rw [happend]⟩
    · rw [happend]
      omega
    · omega
    · rw [happend]
      omega

/-- A finite number is unpacked as a zero, or as a sign, a mantissa and an exponent that make up its exact
value. -/
theorem exists_unpack {x : Float} {r : ℚ} (h : exactValue? x = some r) :
    (∃ sign, x.toModel.unpack = .zero sign ∧ r = 0) ∨
      ∃ sign m exponent hm, x.toModel.unpack = .finite sign m exponent hm ∧ IsUnpacked m exponent ∧
        r = signed (sign == .negative) (m * (2 : ℚ) ^ exponent) := by
  obtain ⟨negative, v, hdatum, rfl⟩ := exactValue?_eq_some_iff.mp h
  unfold datum at hdatum
  simp only at hdatum
  split at hdatum
  · split at hdatum <;> cases hdatum
  · next hfinite =>
    cases hdatum
    rcases unpack_cases hfinite with ⟨hzero, hvalue⟩ | ⟨m, exponent, hm, hunpack, hunpacked, hvalue⟩
    · exact .inl ⟨_, hzero, (congrArg (signed _) hvalue).trans (signed_zero _)⟩
    · exact .inr ⟨_, m, exponent, hm, hunpack, hunpacked,
        congrArg₂ signed ofBitVec_unpackSign.symm hvalue⟩

variable {m m' : Nat} {exponent exponent' : Int}

/-- Of two magnitudes, the one with the smaller exponent is smaller. -/
theorem IsUnpacked.lt_of_exponent_lt (h : IsUnpacked m exponent) (h' : IsUnpacked m' exponent')
    (hlt : exponent < exponent') : (m : ℚ) * (2 : ℚ) ^ exponent < m' * (2 : ℚ) ^ exponent' := by
  have hbelow : (m : ℚ) < 2 ^ 53 := by exact_mod_cast h.below
  have hleast := h.least
  have hfull : (2 : ℚ) ^ 52 ≤ m' := by exact_mod_cast h'.full.resolve_left (by omega)
  calc (m : ℚ) * (2 : ℚ) ^ exponent < 2 ^ 53 * (2 : ℚ) ^ exponent :=
        mul_lt_mul_of_pos_right hbelow (zpow_pos two_pos _)
    _ = 2 ^ 52 * (2 : ℚ) ^ (exponent + 1) := by
        rw [zpow_add_one₀ two_ne_zero]
        ring
    _ ≤ 2 ^ 52 * (2 : ℚ) ^ exponent' := by
        gcongr
        · exact one_le_two
        · omega
    _ ≤ m' * (2 : ℚ) ^ exponent' := mul_le_mul_of_nonneg_right hfull (zpow_pos two_pos _).le

/-- Comparing exponents first and mantissas next compares the magnitudes. -/
theorem IsUnpacked.compare_eq (h : IsUnpacked m exponent) (h' : IsUnpacked m' exponent') :
    (compare exponent exponent').then (compare m m') =
      compare ((m : ℚ) * (2 : ℚ) ^ exponent) (m' * (2 : ℚ) ^ exponent') := by
  rcases lt_trichotomy exponent exponent' with hlt | rfl | hgt
  · rw [compare_lt_iff_lt.mpr hlt, compare_lt_iff_lt.mpr (h.lt_of_exponent_lt h' hlt)]
    rfl
  · have hpos : (0 : ℚ) < (2 : ℚ) ^ exponent := zpow_pos two_pos _
    rw [compare_eq_iff_eq.mpr rfl]
    rcases lt_trichotomy m m' with hlt | rfl | hgt
    · have hlt' := mul_lt_mul_of_pos_right (Nat.cast_lt (α := ℚ).mpr hlt) hpos
      rw [compare_lt_iff_lt.mpr hlt, compare_lt_iff_lt.mpr hlt']
      rfl
    · rw [compare_eq_iff_eq.mpr rfl, compare_eq_iff_eq.mpr rfl]
      rfl
    · have hgt' := mul_lt_mul_of_pos_right (Nat.cast_lt (α := ℚ).mpr hgt) hpos
      rw [compare_gt_iff_gt.mpr hgt, compare_gt_iff_gt.mpr hgt']
      rfl
  · rw [compare_gt_iff_gt.mpr hgt, compare_gt_iff_gt.mpr (h'.lt_of_exponent_lt h hgt)]
    rfl

/-- Negating two numbers turns their comparison around. -/
theorem compare_neg_neg (p q : ℚ) : compare (-p) (-q) = (compare p q).swap := by
  rcases lt_trichotomy p q with hlt | rfl | hgt
  · rw [compare_lt_iff_lt.mpr hlt, compare_gt_iff_gt.mpr (neg_lt_neg hlt)]
    rfl
  · rw [compare_eq_iff_eq.mpr rfl, compare_eq_iff_eq.mpr rfl]
    rfl
  · rw [compare_gt_iff_gt.mpr hgt, compare_lt_iff_lt.mpr (neg_lt_neg hgt)]
    rfl

/-- Finite numbers compare as the rational numbers do that they stand for. -/
theorem compare_unpack {x y : Float} {r s : ℚ} (hx : exactValue? x = some r) (hy : exactValue? y = some s) :
    x.toModel.unpack.compare y.toModel.unpack = some (compare r s) := by
  have hpos : ∀ {m : Nat} (exponent : Int), 0 < m → (0 : ℚ) < m * (2 : ℚ) ^ exponent :=
    fun exponent hm => mul_pos (Nat.cast_pos.mpr hm) (zpow_pos two_pos exponent)
  rcases exists_unpack hx with ⟨sign, hunpack, rfl⟩ | ⟨sign, m, exponent, hm, hunpack, h, rfl⟩ <;>
    rcases exists_unpack hy with ⟨sign', hunpack', rfl⟩ | ⟨sign', m', exponent', hm', hunpack', h', rfl⟩ <;>
    rw [hunpack, hunpack']
  · rfl
  · cases sign' with
    | negative => exact (congrArg some (compare_gt_iff_gt.mpr (neg_neg_of_pos (hpos exponent' hm')))).symm
    | positive => exact (congrArg some (compare_lt_iff_lt.mpr (hpos exponent' hm'))).symm
  · cases sign with
    | negative => exact (congrArg some (compare_lt_iff_lt.mpr (neg_neg_of_pos (hpos exponent hm)))).symm
    | positive => exact (congrArg some (compare_gt_iff_gt.mpr (hpos exponent hm))).symm
  · have hmagnitude := hpos exponent hm
    have hmagnitude' := hpos exponent' hm'
    cases sign with
    | negative =>
        cases sign' with
        | negative => exact congrArg some ((congrArg Ordering.swap (h.compare_eq h')).trans (compare_neg_neg _ _).symm)
        | positive =>
            have hlt := (neg_neg_of_pos hmagnitude).trans hmagnitude'
            exact (congrArg some (compare_lt_iff_lt.mpr hlt)).symm
    | positive =>
        cases sign' with
        | negative =>
            have hgt := (neg_neg_of_pos hmagnitude').trans hmagnitude
            exact (congrArg some (compare_gt_iff_gt.mpr hgt)).symm
        | positive => exact congrArg some (h.compare_eq h')

/-- Finite numbers are compared as their exact values are. -/
theorem le_iff {x y : Float} {r s : ℚ} (hx : exactValue? x = some r) (hy : exactValue? y = some s) :
    x ≤ y ↔ r ≤ s := by
  have hle : x ≤ y ↔ (x.toModel.unpack.compare y.toModel.unpack).any (·.isLE) = true := decide_eq_true_iff
  rw [hle, compare_unpack hx hy, Option.any_some, Ordering.isLE_iff_ne_gt]
  exact compare_le_iff_le

end Binary64

end Calculator
