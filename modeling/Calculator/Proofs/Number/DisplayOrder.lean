import Calculator.Proofs.Number.Comparison
import Calculator.Proofs.Number.Displayed

/-!
# Displayed numbers keep their order

A magnitude is displayed rounded on a decimal grid: to fifteen places from the number nearest to a millionth on,
below 10^16, and to fifteen digits elsewhere; a whole number lies on the grid of fifteen places anyhow. On one
grid, rounding keeps the order. From one grid to the next it is enough that a power of ten lies on both and is not
crossed: 10^-6 where places begin, 10^16 where they end, and each power of ten where the number of places that
fifteen digits leave changes (`displayedValue_mono`).
-/

set_option autoImplicit false

namespace Calculator

namespace Number

/-! ## What is displayed of a magnitude -/

/-- The exponent of the unit to a multiple of which a magnitude is rounded. -/
def displayUnit (v : Fraction) : Int :=
  if v.isWhole && !firstLarge.atMost v then 0
  else if leastPositional.atMost v && !firstLarge.atMost v then -15
  else v.floorLog10 - 14

/-- What is displayed of a magnitude. -/
def displayedValue (v : Fraction) : ℚ := v.roundOn (displayUnit v)

variable {v w : Fraction}

/-- A magnitude is displayed by the digits of the magnitude rounded to its unit. -/
theorem exists_rounding_display (v : Fraction) :
    ∃ whole places exponent, displayMagnitude v = (Numeral.ofPlaces whole places exponent).text ∧
      Numeral.IsRounding v (displayUnit v) whole places exponent := by
  unfold displayMagnitude displayUnit
  split
  · next hwhole =>
    obtain ⟨whole, hrounding⟩ := exists_rounding_whole (Bool.and_eq_true_iff.mp hwhole).1
    exact ⟨whole, [], none, hrounding⟩
  · next hwhole =>
    split
    · obtain ⟨whole, places, hrounding⟩ := exists_rounding_fixed v
      exact ⟨whole, places, none, hrounding⟩
    · have hnum := num_ne_zero_of_not_isShortWhole (mt (isShortWhole_toRat_iff v).mpr hwhole)
      obtain ⟨first, rest, exponent, -, hrounding⟩ := exists_rounding_scientific hnum
      exact ⟨[first], rest, some exponent, hrounding⟩

/-- What is displayed of a magnitude is not negative. -/
theorem displayedValue_nonneg (v : Fraction) : 0 ≤ displayedValue v := v.roundOn_nonneg _

/-- Without an exponent, a magnitude is rounded to fifteen places; with one, to fifteen digits. -/
theorem displayedValue_cases (v : Fraction) :
    (v.toRat < 10 ^ 16 ∧ (v.isWhole = true ∨ leastPositional.toRat ≤ v.toRat) ∧
      displayedValue v = v.roundOn (-15)) ∨
    (v.num ≠ 0 ∧ (v.toRat < leastPositional.toRat ∨ 10 ^ 16 ≤ v.toRat) ∧
      displayedValue v = v.roundOn (v.floorLog10 - 14)) := by
  have hlarge := not_atMost_firstLarge_iff v
  rw [abs_of_nonneg v.toRat_nonneg] at hlarge
  unfold displayedValue displayUnit
  split
  · next hwhole =>
    obtain ⟨hwhole, hbelow⟩ := Bool.and_eq_true_iff.mp hwhole
    refine .inl ⟨hlarge.mp hbelow, .inl hwhole, ?_⟩
    rw [Fraction.roundOn_of_isWhole hwhole le_rfl, Fraction.roundOn_of_isWhole hwhole (by omega)]
  · next hwhole =>
    split
    · next hmedium =>
      rw [Bool.and_eq_true, Fraction.atMost_iff, hlarge] at hmedium
      exact .inl ⟨hmedium.2, .inr hmedium.1, rfl⟩
    · next hmedium =>
      have hnum := num_ne_zero_of_not_isShortWhole (mt (isShortWhole_toRat_iff v).mpr hwhole)
      rw [Bool.and_eq_true, Fraction.atMost_iff, hlarge, not_and_or, not_le, not_lt] at hmedium
      exact .inr ⟨hnum, hmedium, rfl⟩

/-- Zero is displayed as zero. -/
theorem displayedValue_of_num_eq_zero (h : v.num = 0) : displayedValue v = 0 := by
  have hzero := v.toRat_eq_zero_iff.mpr h
  have hwhole : v.isWhole = true := v.isWhole_iff.mpr ⟨0, by rw [hzero, Int.cast_zero]⟩
  rcases displayedValue_cases v with ⟨-, -, hvalue⟩ | ⟨hnum, -⟩
  · rw [hvalue, Fraction.roundOn_of_isWhole hwhole (by omega), hzero]
  · exact absurd h hnum

/-! ## Across the grids -/

/-- Rounded to fifteen digits, a magnitude stays between the powers of ten around it. -/
theorem roundOn_fifteen_bounds (h : v.num ≠ 0) :
    (10 : ℚ) ^ v.floorLog10 ≤ v.roundOn (v.floorLog10 - 14) ∧
      v.roundOn (v.floorLog10 - 14) ≤ (10 : ℚ) ^ (v.floorLog10 + 1) := by
  obtain ⟨hlow, hhigh⟩ := v.floorLog10_bounds h
  exact ⟨Fraction.tenPow_le_roundOn (by omega) hlow, Fraction.roundOn_le_tenPow (by omega) hhigh.le⟩

/-- Rounding to fifteen significant digits keeps the order. -/
theorem roundOn_fifteen_mono (hv : v.num ≠ 0) (hw : w.num ≠ 0) (h : v.toRat ≤ w.toRat) :
    v.roundOn (v.floorLog10 - 14) ≤ w.roundOn (w.floorLog10 - 14) := by
  have hexponent : v.floorLog10 < w.floorLog10 + 1 := by
    have hpowers := ((v.floorLog10_bounds hv).1.trans h).trans_lt (w.floorLog10_bounds hw).2
    exact (zpow_lt_zpow_iff_right₀ (by norm_num)).mp hpowers
  by_cases hsame : v.floorLog10 = w.floorLog10
  · rw [hsame]
    exact Fraction.roundOn_mono h _
  · calc v.roundOn (v.floorLog10 - 14) ≤ (10 : ℚ) ^ (v.floorLog10 + 1) := (roundOn_fifteen_bounds hv).2
      _ ≤ (10 : ℚ) ^ w.floorLog10 := zpow_le_zpow_right₀ (by norm_num) (by omega)
      _ ≤ w.roundOn (w.floorLog10 - 14) := (roundOn_fifteen_bounds hw).1

/-- The least number that is shown without an exponent is less than a millionth. -/
theorem leastPositional_lt_millionth : leastPositional.toRat < (10 : ℚ) ^ (-6 : Int) := by
  rw [Binary64.toRat_leastPositional, Binary64.millionthUnit]
  norm_num

/-- Below the number nearest to a millionth, nothing is displayed above a millionth. -/
theorem roundOn_fifteen_le_millionth (hnum : v.num ≠ 0) (h : v.toRat < leastPositional.toRat) :
    v.roundOn (v.floorLog10 - 14) ≤ (10 : ℚ) ^ (-6 : Int) := by
  have hmillionth := h.trans leastPositional_lt_millionth
  have hexponent : v.floorLog10 < -6 := by
    have hpowers := (v.floorLog10_bounds hnum).1.trans_lt hmillionth
    exact (zpow_lt_zpow_iff_right₀ (by norm_num)).mp hpowers
  exact Fraction.roundOn_le_tenPow (by omega) hmillionth.le

/-- From the number nearest to a millionth on, nothing is displayed below a millionth. -/
theorem millionth_le_roundOn_places (h : leastPositional.toRat ≤ v.toRat) :
    (10 : ℚ) ^ (-6 : Int) ≤ v.roundOn (-15) := by
  have hround : 10 ^ 9 ≤ (v.mulTenPow (- -15)).round := by
    apply Fraction.le_round_of_even (by decide)
    have hscaled : leastPositional.toRat * (10 : ℚ) ^ (- -15 : Int) ≤ v.toRat * (10 : ℚ) ^ (- -15 : Int) :=
      mul_le_mul_of_nonneg_right h (Fraction.tenPow_pos _).le
    rw [Fraction.toRat_mulTenPow]
    refine le_trans ?_ hscaled
    rw [Binary64.toRat_leastPositional, Binary64.millionthUnit]
    norm_num
  calc (10 : ℚ) ^ (-6 : Int) = (10 ^ 9 : Nat) * (10 : ℚ) ^ (-15 : Int) := by norm_num
    _ ≤ v.roundOn (-15) := mul_le_mul_of_nonneg_right (Nat.cast_le.mpr hround) (Fraction.tenPow_pos _).le

/-- From 10^16 on, nothing is displayed below it. -/
theorem firstLarge_le_roundOn_fifteen (hnum : v.num ≠ 0) (h : 10 ^ 16 ≤ v.toRat) :
    (10 : ℚ) ^ (16 : Int) ≤ v.roundOn (v.floorLog10 - 14) := by
  have hexponent : (16 : Int) < v.floorLog10 + 1 := by
    have hpowers : (10 : ℚ) ^ (16 : Int) < (10 : ℚ) ^ (v.floorLog10 + 1) :=
      lt_of_le_of_lt h (v.floorLog10_bounds hnum).2
    exact (zpow_lt_zpow_iff_right₀ (by norm_num)).mp hpowers
  calc (10 : ℚ) ^ (16 : Int) ≤ (10 : ℚ) ^ v.floorLog10 := zpow_le_zpow_right₀ (by norm_num) (by omega)
    _ ≤ v.roundOn (v.floorLog10 - 14) := (roundOn_fifteen_bounds hnum).1

/-- A whole magnitude other than zero is not small. -/
theorem leastPositional_le_of_isWhole (hwhole : v.isWhole = true) (hnum : v.num ≠ 0) :
    leastPositional.toRat ≤ v.toRat := by
  have hpositive : v.floor ≠ 0 := by
    intro hzero
    rw [ne_eq, ← v.toRat_eq_zero_iff, ← v.toRat_floor_of_isWhole hwhole, hzero] at hnum
    exact hnum Nat.cast_zero
  have hone : (1 : ℚ) ≤ v.toRat := by
    rw [← v.toRat_floor_of_isWhole hwhole]
    exact_mod_cast Nat.one_le_iff_ne_zero.mpr hpositive
  have hmillionth : (10 : ℚ) ^ (-6 : Int) ≤ 1 := zpow_le_one_of_nonpos₀ (by norm_num) (by omega)
  exact (leastPositional_lt_millionth.le.trans hmillionth).trans hone

/-- What is displayed of a magnitude is at most what is displayed of a greater one. -/
theorem displayedValue_mono (h : v.toRat ≤ w.toRat) : displayedValue v ≤ displayedValue w := by
  by_cases hzero : v.num = 0
  · rw [displayedValue_of_num_eq_zero hzero]
    exact displayedValue_nonneg w
  have hzero' : w.num ≠ 0 := by
    intro hw
    rw [w.toRat_eq_zero_iff.mpr hw] at h
    exact hzero (v.toRat_eq_zero_iff.mp (le_antisymm h v.toRat_nonneg))
  rcases displayedValue_cases v with ⟨hv, hplaces, hvalue⟩ | ⟨-, hsize, hvalue⟩ <;>
    rcases displayedValue_cases w with ⟨hw, hplaces', hvalue'⟩ | ⟨-, hsize', hvalue'⟩ <;>
    rw [hvalue, hvalue']
  · exact Fraction.roundOn_mono h _
  · -- Places before the digits of a large magnitude.
    have hleast : leastPositional.toRat ≤ v.toRat :=
      hplaces.elim (leastPositional_le_of_isWhole · hzero) id
    have hlarge : 10 ^ 16 ≤ w.toRat := hsize'.resolve_left (not_lt.mpr (hleast.trans h))
    calc v.roundOn (-15) ≤ (10 : ℚ) ^ (16 : Int) := Fraction.roundOn_le_tenPow (by omega) hv.le
      _ ≤ w.roundOn (w.floorLog10 - 14) := firstLarge_le_roundOn_fifteen hzero' hlarge
  · -- The digits of a small magnitude before places.
    have hleast : leastPositional.toRat ≤ w.toRat :=
      hplaces'.elim (leastPositional_le_of_isWhole · hzero') id
    have hsmall : v.toRat < leastPositional.toRat := hsize.resolve_right (not_le.mpr (h.trans_lt hw))
    calc v.roundOn (v.floorLog10 - 14) ≤ (10 : ℚ) ^ (-6 : Int) := roundOn_fifteen_le_millionth hzero hsmall
      _ ≤ w.roundOn (-15) := millionth_le_roundOn_places hleast
  · exact roundOn_fifteen_mono hzero hzero' h

/-! ## What is displayed of a number -/

/-- A number is displayed with its sign and what is displayed of its magnitude. -/
theorem denoted_display {x : Float} {negative : Bool} (h : Binary64.datum x = .finite negative v) :
    denoted (display x) = signed negative (displayedValue v) := by
  obtain ⟨whole, places, exponent, htext, hrounding⟩ := exists_rounding_display v
  have hdisplay : display x = signText (negative && v.num != 0) ++
      String.ofList (Numeral.ofPlaces whole places exponent).text := by
    simp only [display, h, htext]
  rw [hdisplay, denoted_signText_append hrounding.isPlain, hrounding.exactValue_eq]
  change signed _ (displayedValue v) = _
  by_cases hzero : v.num = 0
  · rw [displayedValue_of_num_eq_zero hzero, signed_zero, signed_zero]
  · rw [bne_iff_ne.mpr hzero, Bool.and_true]

/-- Signs included, what is displayed keeps its order. -/
theorem signed_displayedValue_mono {negative negative' : Bool}
    (h : signed negative v.toRat ≤ signed negative' w.toRat) :
    signed negative (displayedValue v) ≤ signed negative' (displayedValue w) := by
  have hv := v.toRat_nonneg
  have hw := w.toRat_nonneg
  have hdisplayed := displayedValue_nonneg v
  have hdisplayed' := displayedValue_nonneg w
  cases negative with
  | true =>
      cases negative' with
      | true => exact neg_le_neg (displayedValue_mono (neg_le_neg_iff.mp h))
      | false => exact (neg_nonpos.mpr hdisplayed).trans hdisplayed'
  | false =>
      cases negative' with
      | true =>
          -- Both are zero.
          have hsum : v.toRat ≤ -w.toRat := h
          rw [displayedValue_of_num_eq_zero (v.toRat_eq_zero_iff.mp (by linarith)),
            displayedValue_of_num_eq_zero (w.toRat_eq_zero_iff.mp (by linarith)), signed_zero, signed_zero]
      | false => exact displayedValue_mono h

/-- Of two finite numbers, what is displayed of the lesser one is at most what is displayed of the greater one. -/
theorem display_monotone {x y : Float} {r s : ℚ} (hx : Binary64.exactValue? x = some r)
    (hy : Binary64.exactValue? y = some s) (h : x ≤ y) : denoted (display x) ≤ denoted (display y) := by
  rw [Binary64.le_iff hx hy] at h
  obtain ⟨negative, v, hdatum, rfl⟩ := Binary64.exactValue?_eq_some_iff.mp hx
  obtain ⟨negative', w, hdatum', rfl⟩ := Binary64.exactValue?_eq_some_iff.mp hy
  rw [denoted_display hdatum, denoted_display hdatum']
  exact signed_displayedValue_mono h

/-- Of the number nearest to a millionth and its neighbour below, one is displayed with places and the other with
digits and an exponent. -/
theorem display_monotone_below_millionth :
    let x := Float.ofBits (UInt64.ofNat 4517329193108106636)
    let y := Float.ofBits (UInt64.ofNat 4517329193108106637)
    ∃ r s, Binary64.exactValue? x = some r ∧ Binary64.exactValue? y = some s ∧ x ≤ y ∧
      display x = "1e-06" ∧ display y = "0.000001" ∧ denoted (display x) ≤ denoted (display y) := by
  intro x y
  have hx := Binary64.datum_ofBits (show 4517329193108106636 < Binary64.infinityWord by decide)
  have hy := Binary64.datum_ofBits (show 4517329193108106637 < Binary64.infinityWord by decide)
  have hvalue := Binary64.exactValue?_eq_some_iff.mpr ⟨_, _, hx, rfl⟩
  have hvalue' := Binary64.exactValue?_eq_some_iff.mpr ⟨_, _, hy, rfl⟩
  have hle : x ≤ y := by decide +kernel
  exact ⟨_, _, hvalue, hvalue', hle, by decide +kernel, by decide +kernel, display_monotone hvalue hvalue' hle⟩

end Number

end Calculator
