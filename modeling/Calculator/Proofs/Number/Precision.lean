import Calculator.Proofs.Number.Displayed

/-!
# How many digits are displayed of a number

A number that is not whole is displayed with fifteen places at most. Its significant digits, from the first one
on that is not zero, are those of the number rounded on a decimal grid, less the zeros at their end. A rounded
value of up to 10^m has m of them at most: it is below 10^m, or it is 10^m and its last zero is left out
(`length_significant_le`). So fifteen digits are displayed of a number below one, and of a greater one so many
more as there are before the point (`display_precision`).
-/

set_option autoImplicit false

namespace Calculator

/-! ## Digits of bounded values -/

namespace Text

/-- A digit has a value below ten, and only the digit zero has the value zero. -/
theorem digitValue?_bounds {c : Char} (h : c.isDigit = true) :
    (digitValue? c).getD 0 < 10 ∧ ((digitValue? c).getD 0 = 0 → c = '0') := by
  have hrange : 48 ≤ c.toNat ∧ c.toNat ≤ 57 := by
    simpa [Char.isDigit, UInt32.le_iff_toNat_le] using h
  rw [digitValue?_of_isDigit h, Option.getD_some]
  refine ⟨by omega, fun hzero => ?_⟩
  rw [← Char.ofNat_toNat c, show c.toNat = 48 by omega]

/-- A value below a power of ten has no more digits than the power has zeros, without the zeros in front. -/
theorem length_dropWhile_zero_le {ds : List Char} {m : Nat} (hdigits : ∀ c ∈ ds, c.isDigit = true)
    (h : digitsValue ds < 10 ^ m) : (ds.dropWhile (· == '0')).length ≤ m := by
  induction ds with
  | nil => exact Nat.zero_le m
  | cons c ds ih =>
      have hvalue : digitsValue (c :: ds) = digitsValue ds + 10 ^ ds.length * (digitValue? c).getD 0 := by
        rw [← List.singleton_append, digitsValue_append, digitsValue_singleton]
      by_cases hc : c = '0'
      · rw [List.dropWhile_cons_of_pos (by simp [hc])]
        exact ih (fun d hd => hdigits d (List.mem_cons_of_mem c hd)) (by omega)
      · have hpositive : (digitValue? c).getD 0 ≠ 0 := mt (digitValue?_bounds (hdigits c List.mem_cons_self)).2 hc
        have hfirst := Nat.le_mul_of_pos_right (10 ^ ds.length) (Nat.pos_of_ne_zero hpositive)
        have hpowers : 10 ^ ds.length < 10 ^ m := by omega
        rw [List.dropWhile_cons_of_neg (by simp [hc]), List.length_cons]
        exact (Nat.pow_lt_pow_iff_right (by decide)).mp hpowers

/-- A multiple of ten ends with a zero. -/
theorem getLast?_of_ten_dvd {ds : List Char} (hdigits : ∀ c ∈ ds, c.isDigit = true) (hne : ds ≠ [])
    (h : 10 ∣ digitsValue ds) : ds.getLast? = some '0' := by
  obtain ⟨init, last, rfl⟩ := (List.eq_nil_or_concat ds).resolve_left hne
  rw [List.concat_eq_append] at hdigits h ⊢
  obtain ⟨hsmall, hzero⟩ := digitValue?_bounds (hdigits last (by simp))
  rw [digitsValue_concat] at h
  rw [List.getLast?_concat, hzero (by omega)]

/-- Digits of a multiple of ten end with a zero, which is trimmed. -/
theorem length_trimZeros_lt_of_ten_dvd {whole places : List Char}
    (hdigits : ∀ c ∈ whole ++ places, c.isDigit = true) (hplaces : places ≠ [])
    (h : 10 ∣ digitsValue (whole ++ places)) : (trimZeros places).length < places.length := by
  have hlast := getLast?_of_ten_dvd hdigits (by simp [hplaces]) h
  rw [List.getLast?_append_of_ne_nil _ hplaces] at hlast
  have hprefix : trimZeros places <+: places := List.rdropWhile_prefix _ _
  refine Nat.lt_of_le_of_ne hprefix.length_le fun hlength => ?_
  have hwhole := hprefix.eq_of_length hlength
  exact getLast?_trimZeros_ne places (by rw [hwhole, hlast])

/-- A value of up to a power of ten, but for the zeros at the end of its places, has no more digits than the power
has zeros. -/
theorem length_significant_le {whole places : List Char} {m : Nat}
    (hdigits : ∀ c ∈ whole ++ places, c.isDigit = true) (hplaces : places ≠ [])
    (h : digitsValue (whole ++ places) ≤ 10 ^ (m + 1)) :
    ((whole ++ trimZeros places).dropWhile (· == '0')).length ≤ m + 1 := by
  obtain ⟨k, hlength, hvalue⟩ := digitsValue_append_eq_trimZeros whole places
  have hpositive : 1 ≤ 10 ^ k := Nat.one_le_pow _ _ (by decide)
  have hkept : digitsValue (whole ++ trimZeros places) ≤ digitsValue (whole ++ places) := by
    rw [hvalue]
    exact Nat.le_mul_of_pos_right _ hpositive
  apply length_dropWhile_zero_le
  · intro c hc
    rcases List.mem_append.mp hc with hc | hc
    · exact hdigits c (List.mem_append_left _ hc)
    · exact hdigits c (List.mem_append_right _ (mem_of_mem_trimZeros hc))
  · rcases Nat.lt_or_eq_of_le h with hbelow | hequal
    · exact Nat.lt_of_le_of_lt hkept hbelow
    · -- The power itself ends with a zero, which is left out.
      have hdvd : 10 ∣ digitsValue (whole ++ places) := by
        rw [hequal]
        exact Nat.dvd_of_pow_dvd (Nat.succ_pos m) (dvd_refl _)
      have hshorter := length_trimZeros_lt_of_ten_dvd hdigits hplaces hdvd
      have hten : 10 ≤ 10 ^ k := Nat.le_self_pow (by omega) 10
      have hle := Nat.mul_le_mul_left (digitsValue (whole ++ trimZeros places)) hten
      rw [← hvalue, hequal] at hle
      have hpower : 0 < 10 ^ (m + 1) := Nat.pow_pos (by decide)
      omega

end Text

namespace Number

/-! ## Digits of a displayed number -/

/-- What stands before the exponent. -/
def mantissa (text : String) : List Char := text.toList.takeWhile (· != 'e')

/-- The digits before the exponent, from the first one on that is not zero. -/
def significantDigits (text : String) : List Char :=
  ((mantissa text).filter Char.isDigit).dropWhile (· == '0')

/-- The digits after the point. -/
def places (text : String) : List Char := ((mantissa text).dropWhile (· != '.')).drop 1

section Plain

variable {n : Numeral} (h : n.IsPlain) (negative : Bool)
include h

/-- Before the exponent of a displayed numeral stand its sign, its digits and its fraction. -/
theorem mantissa_eq : mantissa (signText negative ++ String.ofList n.text) =
    (signText negative).toList ++ (n.whole ++ n.fractionText) := by
  have hbare : (⟨n.whole, n.fraction, none⟩ : Numeral).IsPlain := ⟨h.nonempty, h.whole, h.fraction, by simp⟩
  have hmark : 'e' ∉ (signText negative).toList ++ (n.whole ++ n.fractionText) := by
    have hmem := hbare.mark_mem_text_iff
    rw [← mem_signText_append_iff (by decide) negative] at hmem
    simpa [Numeral.text, Numeral.fractionText] using hmem
  have hexponent : ((n.exponent.map Exponent.text).getD []).takeWhile (· != 'e') = [] := by
    cases he : n.exponent with
    | none => rfl
    | some e => simp [Exponent.text, (h.exponent e he).1]
  have hbefore : ∀ c ∈ (signText negative).toList ++ (n.whole ++ n.fractionText), (c != 'e') = true := by
    intro c hc
    rw [bne_iff_ne]
    rintro rfl
    exact hmark hc
  rw [mantissa, String.toList_append, String.toList_ofList, Numeral.text, ← List.append_assoc,
    List.takeWhile_append_of_pos hbefore, hexponent, List.append_nil]

/-- The significant digits of a displayed numeral are those from the first one on that is not zero. -/
theorem significantDigits_eq : significantDigits (signText negative ++ String.ofList n.text) =
    (n.whole ++ n.fraction.getD []).dropWhile (· == '0') := by
  have hsign : (signText negative).toList.filter Char.isDigit = [] := by
    cases negative <;> decide
  have hwhole : n.whole.filter Char.isDigit = n.whole := List.filter_eq_self.mpr h.whole
  have hfraction : n.fractionText.filter Char.isDigit = n.fraction.getD [] := by
    cases hplaces : n.fraction with
    | none => simp [Numeral.fractionText, hplaces]
    | some places =>
        have hpoint : ¬Char.isDigit '.' = true := by decide
        rw [Numeral.fractionText, hplaces, Option.map_some, Option.getD_some, Option.getD_some,
          List.filter_cons_of_neg hpoint]
        exact List.filter_eq_self.mpr (h.fraction places hplaces).2.2
  rw [significantDigits, mantissa_eq h, List.filter_append, List.filter_append, hsign, hwhole, hfraction,
    List.nil_append]

/-- The digits after the point of a displayed numeral are its fraction. -/
theorem places_eq : places (signText negative ++ String.ofList n.text) = n.fraction.getD [] := by
  have hbefore : ∀ c ∈ (signText negative).toList ++ n.whole, (c != '.') = true := by
    intro c hc
    rw [bne_iff_ne]
    rintro rfl
    rcases List.mem_append.mp hc with hc | hc
    · revert hc
      cases negative <;> decide
    · exact absurd (h.whole '.' hc) (by decide)
  rw [places, mantissa_eq h, ← List.append_assoc, List.dropWhile_append_of_pos hbefore]
  cases hplaces : n.fraction with
  | none => simp [Numeral.fractionText, hplaces]
  | some places => simp [Numeral.fractionText, hplaces]

end Plain

/-! ## Numbers that are not whole -/

/-- The digits of a value rounded to a multiple of a unit are counted by a bound on the value. -/
theorem length_rounding_le {v : Fraction} {unit : Int} {whole places : List Char} {exponent : Option Int} {m : Nat}
    (h : Numeral.IsRounding v unit whole places exponent) (hplaces : places ≠ [])
    (hvalue : v.toRat ≤ (10 : ℚ) ^ (unit + (m + 1 : Nat))) :
    ((whole ++ Text.trimZeros places).dropWhile (· == '0')).length ≤ m + 1 := by
  apply Text.length_significant_le h.digits hplaces
  rw [h.value]
  exact Fraction.round_mulTenPow_le hvalue

/-- Trimming zeros leaves no more digits than there were. -/
theorem length_trimZeros_le (cs : List Char) : (Text.trimZeros cs).length ≤ cs.length :=
  (List.rdropWhile_prefix (· == '0') cs).length_le

/-- A positive magnitude has fifteen digits with an exponent, one of which stands before the point. -/
theorem exists_precision_scientific {v : Fraction} (hv : v.num ≠ 0) :
    ∃ n : Numeral, scientificMagnitude v = n.text ∧ n.IsPlain ∧ (n.fraction.getD []).length ≤ 14 ∧
      ((n.whole ++ n.fraction.getD []).dropWhile (· == '0')).length ≤ 15 := by
  obtain ⟨first, rest, exponent, hfirst, htext, hrounding⟩ := exists_rounding_scientific hv
  have hrest : rest ≠ [] := by
    rintro rfl
    have hdigit := (Text.digitValue?_bounds (hrounding.digits first (by simp))).1
    have hvalue := hrounding.value
    rw [List.append_nil, Text.digitsValue_singleton] at hvalue
    have hround := le_round_fifteen hv
    omega
  have hbound : v.toRat ≤ (10 : ℚ) ^ (v.floorLog10 - 14 + (14 + 1 : Nat)) := by
    have hexponent : v.floorLog10 - 14 + (14 + 1 : Nat) = v.floorLog10 + 1 := by omega
    rw [hexponent]
    exact (v.floorLog10_bounds hv).2.le
  have hdigits := length_rounding_le hrounding hrest hbound
  have hkept : (first :: Text.trimZeros rest).dropWhile (· == '0') = first :: Text.trimZeros rest :=
    List.dropWhile_cons_of_neg (by simp [hfirst])
  refine ⟨_, htext, hrounding.isPlain, ?_, ?_⟩
  · rw [Numeral.getD_fraction_ofPlaces]
    rw [List.singleton_append, hkept, List.length_cons] at hdigits
    omega
  · rwa [Numeral.getD_fraction_ofPlaces]

/-- With fifteen places, a magnitude has so many digits more as there are before the point. -/
theorem exists_precision_fixed (v : Fraction) :
    ∃ n : Numeral, trimPlaces (fixedMagnitude 15 v) = n.text ∧ n.IsPlain ∧ (n.fraction.getD []).length ≤ 15 ∧
      ∀ k : Nat, v.toRat < 10 ^ k → ((n.whole ++ n.fraction.getD []).dropWhile (· == '0')).length ≤ 15 + k := by
  obtain ⟨whole, places, htext, hrounding⟩ := exists_rounding_fixed v
  have hlength : places.length = 15 := by
    have hunit := hrounding.unit_eq
    rw [Option.getD_none] at hunit
    omega
  have hplaces : places ≠ [] := by
    rw [← List.length_pos_iff]
    omega
  refine ⟨_, htext, hrounding.isPlain, ?_, ?_⟩
  · rw [Numeral.getD_fraction_ofPlaces, ← hlength]
    exact length_trimZeros_le places
  · intro k hk
    have hbound : v.toRat ≤ (10 : ℚ) ^ ((-15 : Int) + (14 + k + 1 : Nat)) := by
      have hexponent : (-15 : Int) + (14 + k + 1 : Nat) = k := by omega
      rw [hexponent, zpow_natCast]
      exact hk.le
    rw [Numeral.getD_fraction_ofPlaces]
    exact (length_rounding_le hrounding hplaces hbound).trans (by omega)

/-- A magnitude that is not whole is displayed by a plain numeral of at most fifteen places, with at most
fifteen significant digits and one for each digit before the point. -/
theorem exists_precision_display {v : Fraction} (hv : ¬v.isWhole = true) :
    ∃ n : Numeral, displayMagnitude v = n.text ∧ n.IsPlain ∧ (n.fraction.getD []).length ≤ 15 ∧
      ∀ k : Nat, v.toRat < 10 ^ k → ((n.whole ++ n.fraction.getD []).dropWhile (· == '0')).length ≤ 15 + k := by
  have hnum : v.num ≠ 0 := by
    intro hzero
    exact hv (v.isWhole_iff.mpr ⟨0, by rw [v.toRat_eq_zero_iff.mpr hzero, Int.cast_zero]⟩)
  unfold displayMagnitude
  rw [if_neg fun hwhole => hv (Bool.and_eq_true_iff.mp hwhole).1]
  split
  · exact exists_precision_fixed v
  · obtain ⟨n, htext, hplain, hplaces, hdigits⟩ := exists_precision_scientific hnum
    exact ⟨n, htext, hplain, by omega, fun k _ => by omega⟩

/-- A finite number that is not whole is displayed with at most fifteen digits after the point, and with at most
fifteen significant digits if it is below one; if it is below 10^k, with k more. -/
theorem display_precision {x : Float} {r : ℚ} (h : Binary64.exactValue? x = some r)
    (hfraction : ¬∃ z : Int, (z : ℚ) = r) :
    (places (display x)).length ≤ 15 ∧ (|r| < 1 → (significantDigits (display x)).length ≤ 15) ∧
      ∀ k : Nat, |r| < 10 ^ k → (significantDigits (display x)).length ≤ 15 + k := by
  obtain ⟨negative, v, hdatum, rfl⟩ := Binary64.exactValue?_eq_some_iff.mp h
  rw [exists_intCast_eq_signed_iff, ← v.isWhole_iff] at hfraction
  obtain ⟨n, htext, hplain, hplaces, hdigits⟩ := exists_precision_display hfraction
  have hdisplay : display x = signText (negative && v.num != 0) ++ String.ofList n.text := by
    simp only [display, hdatum, htext]
  rw [hdisplay, places_eq hplain, significantDigits_eq hplain, abs_signed, abs_of_nonneg v.toRat_nonneg]
  refine ⟨hplaces, fun hone => hdigits 0 ?_, hdigits⟩
  rwa [pow_zero]

/-- Of two thirds, fifteen digits are displayed. -/
theorem display_precision_two_thirds :
    let x := Float.ofBits (UInt64.ofNat 4604180019048437077)
    ∃ r, Binary64.exactValue? x = some r ∧ (¬∃ z : Int, (z : ℚ) = r) ∧ |r| < 1 ∧
      display x = "0.666666666666667" ∧ (significantDigits (display x)).length ≤ 15 := by
  intro x
  have hdatum := Binary64.datum_ofBits (show 4604180019048437077 < Binary64.infinityWord by decide)
  have hvalue := Binary64.exactValue?_eq_some_iff.mpr ⟨_, _, hdatum, rfl⟩
  have hwhole : ¬(Binary64.magnitude 4604180019048437077).isWhole = true := by decide +kernel
  rw [Fraction.isWhole_iff, ← exists_intCast_eq_signed_iff false] at hwhole
  have hone : |signed false (Binary64.magnitude 4604180019048437077).toRat| < 1 := by
    have hless : (Binary64.magnitude 4604180019048437077).num < (Binary64.magnitude 4604180019048437077).den := by
      decide +kernel
    rw [abs_signed, abs_of_nonneg (Fraction.toRat_nonneg _), Fraction.toRat, div_lt_one (Fraction.den_pos_rat _)]
    exact_mod_cast hless
  exact ⟨_, hvalue, hwhole, hone, by decide +kernel, (display_precision hvalue hwhole).2.1 hone⟩

/-- A number of four digits before the point is displayed with nineteen digits. -/
theorem display_shows_nineteen_digits :
    let x := Float.ofBits (UInt64.ofNat 4653142444645705318)
    ∃ r, Binary64.exactValue? x = some r ∧ (¬∃ z : Int, (z : ℚ) = r) ∧ display x = "1234.099999999999909" ∧
      ¬(significantDigits (display x)).length ≤ 15 := by
  intro x
  have hdatum := Binary64.datum_ofBits (show 4653142444645705318 < Binary64.infinityWord by decide)
  have hdisplay : display x = "1234.099999999999909" := by decide +kernel
  have hwhole : ¬(Binary64.magnitude 4653142444645705318).isWhole = true := by decide +kernel
  refine ⟨_, Binary64.exactValue?_eq_some_iff.mpr ⟨_, _, hdatum, rfl⟩, ?_, hdisplay, ?_⟩
  · rwa [exists_intCast_eq_signed_iff, ← Fraction.isWhole_iff]
  · rw [hdisplay]
    decide

end Number

end Calculator
