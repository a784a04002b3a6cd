import Calculator.Number.Decimal
import Mathlib

/-!
# Finite words

The words below the one of infinity are the finite magnitudes. Such a word is kept as it is when it is
turned into a number: packing what has been unpacked from it gives it back. So the number denotes the
magnitude of the word and carries no sign (`Binary64.datum_ofBits`).
-/

set_option autoImplicit false

namespace Calculator

open Float.Model.UnpackedFloat
open Float.Model (Format)

namespace Binary64

/-! ## The fields of a word -/

/-- A packed word is the sum of its three fields, each on its own scale. -/
theorem toNat_packComponents (sign : Sign) (exponent : BitVec 11) (mantissa : BitVec 52) :
    (packComponents .binary64 sign exponent mantissa).toNat =
      sign.toBitVec.toNat * 2 ^ 63 + exponent.toNat * 2 ^ 52 + mantissa.toNat := by
  unfold packComponents
  rw [BitVec.toNat_append, BitVec.toNat_append, ← Nat.shiftLeft_add_eq_or_of_lt mantissa.isLt,
    ← Nat.shiftLeft_add_eq_or_of_lt exponent.isLt]
  simp only [Nat.shiftLeft_eq]
  omega

variable {b : BitVec Format.binary64.numBits}

/-- The mantissa of a word is its lowest 52 bits. -/
theorem toNat_unpackMantissa : (unpackMantissa b).toNat = b.toNat % 2 ^ 52 := by
  simp [unpackMantissa]

/-- The exponent of a word is the eleven bits above the mantissa. -/
theorem toNat_unpackExponent : (unpackExponent b).toNat = b.toNat / 2 ^ 52 % 2 ^ 11 := by
  simp [unpackExponent, Nat.shiftRight_eq_div_pow]

/-- The sign of a word is its highest bit. -/
theorem toNat_unpackSign : (unpackSign b).toNat = b.toNat / 2 ^ 63 % 2 := by
  simp [unpackSign, Nat.shiftRight_eq_div_pow]

/-- The bit that is implied stands above those of the fraction. -/
theorem toNat_one_append_unpackMantissa :
    (1#1 ++ unpackMantissa b).toNat = 2 ^ 52 + (unpackMantissa b).toNat := by
  rw [BitVec.toNat_append, ← Nat.shiftLeft_add_eq_or_of_lt (unpackMantissa b).isLt]
  simp [Nat.shiftLeft_eq]

/-! ## Packing what has been unpacked -/

section Finite

variable (h : b.toNat < infinityWord)
include h

/-- A word below that of infinity has no sign. -/
theorem unpackSign_eq_zero : unpackSign b = 0#1 := by
  apply BitVec.eq_of_toNat_eq
  rw [toNat_unpackSign]
  simp only [infinityWord, Nat.pow_eq, BitVec.toNat_ofNat] at h ⊢
  omega

/-- A word below that of infinity does not have the highest exponent. -/
theorem unpackExponent_ne : unpackExponent b ≠ -1#11 := by
  intro hinfinite
  have htop : b.toNat / 2 ^ 52 % 2 ^ 11 = 2047 := by
    rw [← toNat_unpackExponent, hinfinite]
    rfl
  simp only [infinityWord, Nat.pow_eq] at h
  omega

/-- A word is packed from its own exponent and fraction; no sign is set. -/
theorem toNat_packComponents_of_fields {exponent : BitVec 11} {mantissa : BitVec 52}
    (hexponent : exponent.toNat = (unpackExponent b).toNat)
    (hmantissa : mantissa.toNat = (unpackMantissa b).toNat) :
    (packComponents .binary64 .positive exponent mantissa).toNat = b.toNat := by
  have hsign : (Sign.positive).toBitVec.toNat = 0 := rfl
  rw [toNat_packComponents, hsign, hexponent, hmantissa, toNat_unpackExponent, toNat_unpackMantissa]
  simp only [infinityWord, Nat.pow_eq] at h
  omega

/-- The exponent field is zero: the number is zero, or it has less than fifty-three bits. -/
theorem toNat_pack_unpack_of_exponent_eq_zero (hzero : unpackExponent b = 0#11) :
    (pack .binary64 (unpack .binary64 b)).toNat = b.toNat := by
  unfold unpack
  simp only [unpackSign_eq_zero h, Sign.ofBitVec, hzero, if_true]
  rw [if_neg (by decide)]
  split
  · next hnone => exact toNat_packComponents_of_fields h (by rw [hzero]; rfl) (by rw [hnone]; rfl)
  · next hsome =>
    have hne : (unpackMantissa b).toNat ≠ 0 := by
      intro hnone
      exact hsome (BitVec.eq_of_toNat_eq hnone)
    have hlog : (unpackMantissa b).toNat.log2 < 52 :=
      (Nat.log2_lt hne).mpr (unpackMantissa b).isLt
    have hbits : ¬(unpackMantissa b).toNat.log2 + 1 = Format.binary64.mantissaBits := by
      simp only [Format.mantissaBits]
      omega
    rw [pack, if_neg (by decide), if_neg hbits]
    refine toNat_packComponents_of_fields h (by rw [hzero]) ?_
    rw [BitVec.ofNat_toNat, BitVec.setWidth_eq]

/-- The exponent field is not zero: the number has fifty-three bits, the first of which is implied. -/
theorem toNat_pack_unpack_of_exponent_ne_zero (hnonzero : unpackExponent b ≠ 0#11) :
    (pack .binary64 (unpack .binary64 b)).toNat = b.toNat := by
  have hmantissa : (unpackMantissa b).toNat < 2 ^ 52 := (unpackMantissa b).isLt
  have happend := toNat_one_append_unpackMantissa (b := b)
  have hbits : (1#1 ++ unpackMantissa b).toNat.log2 + 1 = Format.binary64.mantissaBits := by
    have hlog : (2 ^ 52 + (unpackMantissa b).toNat).log2 = 52 := by
      rw [Nat.log2_eq_iff (by omega)]
      omega
    rw [happend, hlog]
    rfl
  have hfinite : ¬2 ^ 11 ≤ (unpackExponent b).toNat + 1 := by
    rw [toNat_unpackExponent]
    simp only [infinityWord, Nat.pow_eq] at h
    omega
  -- Packing adds the bias that unpacking has taken away.
  have hbias : ((unpackExponent b).toNat - ((Format.binary64.exponentBias : Int) + (52 : Nat)) +
      Format.binary64.exponentBias + (52 : Nat)).toNat = (unpackExponent b).toNat := by
    omega
  unfold unpack
  simp only [unpackSign_eq_zero h, Sign.ofBitVec, if_true]
  rw [if_neg (unpackExponent_ne h), if_neg hnonzero, pack, hbias, if_neg hfinite, if_pos hbits]
  refine toNat_packComponents_of_fields h ?_ ?_
  · rw [BitVec.ofNat_toNat, BitVec.setWidth_eq]
  · rw [BitVec.toNat_ofNat, happend, Nat.add_mod_left, Nat.mod_eq_of_lt hmantissa]

/-- A word below that of infinity is packed again from what it is unpacked to. -/
theorem toNat_pack_unpack : (pack .binary64 (unpack .binary64 b)).toNat = b.toNat := by
  by_cases hzero : unpackExponent b = 0#11
  · exact toNat_pack_unpack_of_exponent_eq_zero h hzero
  · exact toNat_pack_unpack_of_exponent_ne_zero h hzero

end Finite

variable {word : Nat}

/-- A finite word is the word of the number that it is turned into. -/
theorem toNat_toBits_ofBits (h : word < infinityWord) :
    (Float.ofBits (UInt64.ofNat word)).toBits.toNat = word := by
  have hbits : (UInt64.ofNat word).toBitVec.toNat = word := by
    simp only [infinityWord, Nat.pow_eq] at h
    simp only [UInt64.toBitVec_ofNat', BitVec.toNat_ofNat]
    omega
  have hpack := toNat_pack_unpack (b := (UInt64.ofNat word).toBitVec) (by rwa [hbits])
  rwa [hbits] at hpack

/-- The number of a finite word denotes the magnitude of the word and is not negative. -/
theorem datum_ofBits (h : word < infinityWord) :
    datum (Float.ofBits (UInt64.ofNat word)) = .finite false (magnitude word) := by
  have hword := toNat_toBits_ofBits h
  simp only [infinityWord, Nat.pow_eq] at h
  have hexponent : ¬word / Nat.pow 2 52 % Nat.pow 2 11 = 2047 := by
    simp only [Nat.pow_eq]
    omega
  have hsign : (word / Nat.pow 2 63 % 2 == 1) = false := by
    rw [beq_eq_false_iff_ne, Nat.pow_eq]
    omega
  simp only [datum, hword]
  rw [if_neg hexponent, hsign]

end Binary64

/-- What a decimal is read as is finite and not negative. -/
theorem Decimal.datum_of_toFloat? {d : Decimal} {value : Float} (h : d.toFloat? = some value) :
    Binary64.datum value = .finite false (Binary64.magnitude d.nearestWord) := by
  unfold Decimal.toFloat? at h
  split at h
  · next hfinite =>
    cases h
    exact Binary64.datum_ofBits hfinite
  · cases h

end Calculator
