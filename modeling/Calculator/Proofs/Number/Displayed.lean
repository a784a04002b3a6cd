import Calculator.Proofs.Number.DecimalGrid
import Calculator.Proofs.Number.ExactValue
import Calculator.Proofs.Text.Digits
import Calculator.Proofs.Token.FirstFault

/-!
# What is displayed of a number

A displayed number is a numeral with a minus sign if it is negative, so it denotes a rational number. In each
of its three forms it is made of digits before the point and of places after it, less the zeros at their end,
perhaps with an exponent (`Numeral.ofPlaces`); what such a numeral denotes is told by all the digits and the
number of places (`Numeral.exactValue_ofPlaces`).

A whole number is displayed as it is. Between the number nearest to a millionth and 10^16, any other number is
rounded to fifteen places; all that is left is rounded to fifteen digits. So the distance from the number is at
most half a unit of the last place or digit that is kept, and a number other than zero is never displayed as
zero.
-/

set_option autoImplicit false

namespace Calculator

/-! ## Numerals without zeros at their end -/

/-- An exponent as it is displayed: a sign and at least two digits. -/
def Exponent.ofInt (exponent : Int) : Exponent :=
  ⟨'e', some (if exponent < 0 then '-' else '+'), Text.padZeros 2 (Text.decimalDigits exponent.natAbs)⟩

/-- A displayed exponent has the value that it displays. -/
theorem Exponent.value_ofInt (exponent : Int) : (ofInt exponent).value = exponent := by
  simp only [value, ofInt, Text.digitsValue_padZeros, Text.digitsValue_decimalDigits]
  by_cases h : exponent < 0
  · rw [if_pos h, if_pos rfl]
    omega
  · rw [if_neg h, if_neg (by decide)]
    omega

namespace Numeral

/-- A numeral of ASCII digits whose fraction, if there is one, neither is empty nor ends with a zero, and whose
exponent, if there is one, has the mark `e`, a sign and digits. -/
structure IsPlain (n : Numeral) : Prop where
  nonempty : n.whole ≠ []
  whole : ∀ c ∈ n.whole, c.isDigit = true
  fraction : ∀ places ∈ n.fraction,
    places ≠ [] ∧ places.getLast? ≠ some '0' ∧ ∀ c ∈ places, c.isDigit = true
  exponent : ∀ e ∈ n.exponent, e.mark = 'e' ∧ (e.sign = some '+' ∨ e.sign = some '-') ∧ e.digits ≠ [] ∧
    ∀ c ∈ e.digits, c.isDigit = true

/-- The numeral of digits before the point and places after it, less the zeros at the end of the places, with
an exponent if there is one. -/
def ofPlaces (whole places : List Char) (exponent : Option Int) : Numeral :=
  ⟨whole, if Text.trimZeros places = [] then none else some (Text.trimZeros places),
    exponent.map Exponent.ofInt⟩

/-- A plain numeral is well-formed. -/
theorem IsPlain.wellFormed {n : Numeral} (h : n.IsPlain) : n.WellFormed where
  nonempty := h.nonempty
  whole c hc := Text.isDigit_of_isDigit (h.whole c hc)
  fraction places hplaces c hc := Text.isDigit_of_isDigit ((h.fraction places hplaces).2.2 c hc)
  exponent e he := by
    obtain ⟨hmark, hsign, -, hdigits⟩ := h.exponent e he
    refine ⟨.inl hmark, ?_, fun c hc => Text.isDigit_of_isDigit (hdigits c hc)⟩
    intro c hc
    rcases hsign with hsign | hsign
    · exact .inl (Option.some.inj (hc.symm.trans hsign))
    · exact .inr (Option.some.inj (hc.symm.trans hsign))

/-- Digits around a point make up a plain numeral. -/
theorem isPlain_ofPlaces {whole places : List Char} {exponent : Option Int} (hne : whole ≠ [])
    (hwhole : ∀ c ∈ whole, c.isDigit = true) (hplaces : ∀ c ∈ places, c.isDigit = true) :
    (ofPlaces whole places exponent).IsPlain where
  nonempty := hne
  whole := hwhole
  fraction kept hkept := by
    simp only [ofPlaces, Option.mem_def, Option.ite_none_left_eq_some, Option.some.injEq] at hkept
    obtain ⟨hnonempty, rfl⟩ := hkept
    exact ⟨hnonempty, Text.getLast?_trimZeros_ne places, fun c hc => hplaces c (Text.mem_of_mem_trimZeros hc)⟩
  exponent e he := by
    obtain ⟨value, -, rfl⟩ := Option.map_eq_some_iff.mp he
    refine ⟨rfl, ?_, ?_, fun c => Text.isDigit_of_mem_padZeros⟩
    · simp only [Exponent.ofInt]
      split <;> simp
    · intro hnil
      have hlength := congrArg List.length hnil
      simp only [Exponent.ofInt, Text.length_padZeros, List.length_nil] at hlength
      omega

/-- The fraction of such a numeral is its places less the zeros at the end. -/
theorem getD_fraction_ofPlaces (whole places : List Char) (exponent : Option Int) :
    (ofPlaces whole places exponent).fraction.getD [] = Text.trimZeros places := by
  by_cases h : Text.trimZeros places = [] <;> simp [ofPlaces, h]

/-- What a numeral denotes is told by all its digits, also those that are left out. -/
theorem exactValue_ofPlaces (whole places : List Char) (exponent : Option Int) :
    (ofPlaces whole places exponent).exactValue =
      Text.digitsValue (whole ++ places) * (10 : ℚ) ^ (exponent.getD 0 - places.length) := by
  have hten : (10 : ℚ) ≠ 0 := by norm_num
  have hexponent : ((exponent.map Exponent.ofInt).map Exponent.value).getD 0 = exponent.getD 0 := by
    cases exponent with
    | none => rfl
    | some value => exact Exponent.value_ofInt value
  obtain ⟨k, hlength, hvalue⟩ := Text.digitsValue_append_eq_trimZeros whole places
  rw [← toRat_decimal, Decimal.toRat, decimal, getD_fraction_ofPlaces, hvalue, hlength]
  simp only [ofPlaces, hexponent]
  rw [Nat.cast_mul, Nat.cast_pow, mul_assoc, ← zpow_natCast, Nat.cast_ofNat, ← zpow_add₀ hten]
  congr 2
  push_cast
  ring

/-- The digits around the point are those of a fraction rounded to a multiple of a power of ten. -/
structure IsRounding (v : Fraction) (unit : Int) (whole places : List Char) (exponent : Option Int) : Prop where
  nonempty : whole ≠ []
  digits : ∀ c ∈ whole ++ places, c.isDigit = true
  unit_eq : exponent.getD 0 - places.length = unit
  value : Text.digitsValue (whole ++ places) = (v.mulTenPow (-unit)).round

section Rounding

variable {v : Fraction} {unit : Int} {whole places : List Char} {exponent : Option Int}
  (h : IsRounding v unit whole places exponent)
include h

/-- The digits of a rounded fraction make up a plain numeral. -/
theorem IsRounding.isPlain : (ofPlaces whole places exponent).IsPlain :=
  isPlain_ofPlaces h.nonempty (fun c hc => h.digits c (List.mem_append_left _ hc))
    fun c hc => h.digits c (List.mem_append_right _ hc)

/-- The digits of a rounded fraction denote the rounded value. -/
theorem IsRounding.exactValue_eq : (ofPlaces whole places exponent).exactValue = v.roundOn unit := by
  rw [exactValue_ofPlaces, h.value, h.unit_eq, Fraction.roundOn]

/-- The digits of a rounded fraction denote a value that is off by half a unit at most. -/
theorem IsRounding.abs_sub_le :
    |(ofPlaces whole places exponent).exactValue - v.toRat| ≤ (10 : ℚ) ^ unit / 2 := by
  rw [h.exactValue_eq]
  exact v.abs_roundOn_sub_le unit

end Rounding

/-- A well-formed numeral starts with a digit. -/
theorem WellFormed.exists_text_eq_cons {n : Numeral} (h : n.WellFormed) :
    ∃ c tail, n.text = c :: tail ∧ Text.isDigit c = true := by
  obtain ⟨c, tail, hwhole⟩ := List.exists_cons_of_ne_nil h.nonempty
  refine ⟨c, tail ++ n.fractionText ++ (n.exponent.map Exponent.text).getD [], ?_, h.whole c (by simp [hwhole])⟩
  rw [text, hwhole, List.cons_append, List.cons_append]

/-- Apart from its digits, a plain numeral is written with a point if it has a fraction, and with a mark and a
sign if it has an exponent. -/
theorem IsPlain.mem_text_iff {n : Numeral} (h : n.IsPlain) {c : Char} (hc : c.isDigit = false) :
    c ∈ n.text ↔ (c = '.' ∧ n.fraction.isSome = true) ∨
      ∃ e ∈ n.exponent, c = e.mark ∨ e.sign = some c := by
  have hdigits : ∀ {cs : List Char}, (∀ d ∈ cs, d.isDigit = true) → c ∉ cs := by
    intro cs hcs hmem
    rw [hcs c hmem] at hc
    cases hc
  have hfraction : c ∈ n.fractionText ↔ c = '.' ∧ n.fraction.isSome = true := by
    cases hplaces : n.fraction with
    | none => simp [fractionText, hplaces]
    | some places => simp [fractionText, hplaces, hdigits (h.fraction places hplaces).2.2]
  have hexponent : c ∈ (n.exponent.map Exponent.text).getD [] ↔ ∃ e ∈ n.exponent, c = e.mark ∨ e.sign = some c := by
    cases he : n.exponent with
    | none => simp
    | some e => simp [Exponent.text, hdigits (h.exponent e he).2.2.2]
  rw [text, List.mem_append, List.mem_append, hfraction, hexponent, or_iff_right (hdigits h.whole)]

/-- A plain numeral is written with a point exactly if it has a fraction. -/
theorem IsPlain.point_mem_text_iff {n : Numeral} (h : n.IsPlain) : '.' ∈ n.text ↔ n.fraction.isSome = true := by
  rw [h.mem_text_iff (by decide), or_iff_left, and_iff_right rfl]
  rintro ⟨e, he, hpoint⟩
  obtain ⟨hmark, hsign, -⟩ := h.exponent e he
  rw [hmark] at hpoint
  rcases hsign with hsign | hsign <;> simp [hsign] at hpoint

/-- A plain numeral is written with the letter e exactly if it has an exponent. -/
theorem IsPlain.mark_mem_text_iff {n : Numeral} (h : n.IsPlain) : 'e' ∈ n.text ↔ n.exponent.isSome = true := by
  rw [h.mem_text_iff (by decide), or_iff_right (by simp), Option.isSome_iff_exists]
  constructor
  · rintro ⟨e, he, -⟩
    exact ⟨e, he⟩
  · rintro ⟨e, he⟩
    exact ⟨e, he, .inl (h.exponent e he).1.symm⟩

end Numeral

namespace Number

/-! ## What a text denotes -/

/-- The rational number that a text of a numeral denotes, with a minus sign before it or without. -/
def denoted (text : String) : ℚ :=
  match text.toList with
  | '-' :: rest => -(Numeral.take rest).1.exactValue
  | cs => (Numeral.take cs).1.exactValue

/-- A text is a plain numeral, with a minus sign before it or without. -/
def IsPlainText (text : String) : Prop :=
  ∃ (negative : Bool) (n : Numeral), n.IsPlain ∧ text = signText negative ++ String.ofList n.text

/-- A plain numeral with a sign before it denotes its value with that sign. -/
theorem denoted_signText_append {n : Numeral} (h : n.IsPlain) (negative : Bool) :
    denoted (signText negative ++ String.ofList n.text) = signed negative n.exactValue := by
  have htake := congrArg (fun taken => taken.1.exactValue) (Numeral.take_text h.wellFormed)
  cases negative with
  | true =>
      have htext : (signText true ++ String.ofList n.text).toList = '-' :: n.text := by
        rw [String.toList_append, String.toList_ofList]
        rfl
      simp only [denoted, htext, htake]
      rfl
  | false =>
      obtain ⟨c, tail, htail, hc⟩ := h.wellFormed.exists_text_eq_cons
      have htext : (signText false ++ String.ofList n.text).toList = c :: tail := by
        rw [String.toList_append, String.toList_ofList, htail]
        rfl
      have hsign : c ≠ '-' := by
        rintro rfl
        revert hc
        decide
      rw [htail] at htake
      unfold denoted
      rw [htext]
      split
      · next hcons =>
        cases hcons
        exact absurd rfl hsign
      · exact htake

/-! ## The three forms -/

/-- Trimming the places of digits around a point leaves the numeral of these digits. -/
theorem trimPlaces_point {whole places : List Char} (h : ∀ c ∈ places, c.isDigit = true) :
    trimPlaces (whole ++ '.' :: places) = (Numeral.ofPlaces whole places none).text := by
  have htrim : Text.trimZeros (whole ++ '.' :: places) = whole ++ '.' :: Text.trimZeros places :=
    Text.trimZeros_append_cons (by decide) whole places
  have hkept : ∀ c ∈ Text.trimZeros places, c.isDigit = true := fun c hc => h c (Text.mem_of_mem_trimZeros hc)
  unfold trimPlaces Numeral.ofPlaces
  rw [htrim]
  generalize Text.trimZeros places = kept at hkept
  rcases List.eq_nil_or_concat kept with rfl | ⟨init, last, rfl⟩
  · simp [Numeral.text, Numeral.fractionText]
  · have hlast : last ≠ '.' := by
      rintro rfl
      exact absurd (hkept '.' (by simp)) (by decide)
    have hreverse : (whole ++ '.' :: init.concat last).reverse = last :: (whole ++ '.' :: init).reverse := by
      simp
    rw [hreverse]
    split
    · next hpoint =>
      cases hpoint
      exact absurd rfl hlast
    · simp [Numeral.text, Numeral.fractionText]

/-- Digits without the zeros at their end are written as a numeral with an exponent. -/
theorem scientific_trimZeros {first : Char} (h : first ≠ '0') (rest : List Char) (exponent : Int) :
    scientific (Text.trimZeros (first :: rest)) exponent =
      (Numeral.ofPlaces [first] rest (some exponent)).text := by
  have htrim : Text.trimZeros (first :: rest) = first :: Text.trimZeros rest :=
    Text.trimZeros_append_cons h [] rest
  unfold scientific Numeral.ofPlaces
  rw [htrim]
  cases Text.trimZeros rest with
  | nil => simp [Numeral.text, Numeral.fractionText, Exponent.text, Exponent.ofInt]
  | cons second more => simp [Numeral.text, Numeral.fractionText, Exponent.text, Exponent.ofInt]

/-- A magnitude with a fixed number of places has as many, and all its digits are those of the rounded value. -/
theorem exists_fixedMagnitude (places : Nat) (v : Fraction) :
    ∃ whole fraction, fixedMagnitude places v = whole ++ '.' :: fraction ∧ whole ≠ [] ∧
      (∀ c ∈ whole ++ fraction, c.isDigit = true) ∧ fraction.length = places ∧
      Text.digitsValue (whole ++ fraction) = (v.mulTenPow places).round := by
  let digits := Text.padZeros (places + 1) (Text.decimalDigits (v.mulTenPow places).round)
  have hlength : digits.length = max (places + 1) _ := Text.length_padZeros _ _
  refine ⟨digits.take (digits.length - places), digits.drop (digits.length - places), rfl, ?_, ?_, ?_, ?_⟩
  · rw [← List.length_pos_iff, List.length_take]
    omega
  · rw [List.take_append_drop]
    exact fun c => Text.isDigit_of_mem_padZeros
  · rw [List.length_drop]
    omega
  · rw [List.take_append_drop, Text.digitsValue_padZeros, Text.digitsValue_decimalDigits]

/-- A whole magnitude is written as it is. -/
theorem exists_rounding_whole {v : Fraction} (hv : v.isWhole = true) :
    ∃ whole, Text.decimalDigits v.floor = (Numeral.ofPlaces whole [] none).text ∧
      Numeral.IsRounding v 0 whole [] none := by
  have hround : (v.mulTenPow (-0)).round = v.floor := by
    apply Fraction.round_of_toRat_eq
    rw [Fraction.toRat_mulTenPow, neg_zero, zpow_zero, mul_one, v.toRat_floor_of_isWhole hv]
  refine ⟨Text.decimalDigits v.floor, ?_, Nat.toDigits_ne_nil, ?_, rfl, ?_⟩
  · simp [Numeral.ofPlaces, Numeral.text, Numeral.fractionText, Text.trimZeros]
  · rw [List.append_nil]
    exact fun c => Text.isDigit_of_mem_decimalDigits
  · rw [List.append_nil, Text.digitsValue_decimalDigits, hround]

/-- A magnitude with fifteen places is written without the zeros at their end. -/
theorem exists_rounding_fixed (v : Fraction) :
    ∃ whole places, trimPlaces (fixedMagnitude 15 v) = (Numeral.ofPlaces whole places none).text ∧
      Numeral.IsRounding v (-15) whole places none := by
  obtain ⟨whole, places, htext, hne, hdigits, hlength, hvalue⟩ := exists_fixedMagnitude 15 v
  refine ⟨whole, places, ?_, hne, hdigits, ?_, hvalue⟩
  · rw [htext, trimPlaces_point fun c hc => hdigits c (List.mem_append_right _ hc)]
  · rw [hlength]
    rfl

/-- The nearest decimal of fifteen digits is the fraction rounded to its fifteenth digit. -/
theorem nearestDecimal_fifteen (v : Fraction) :
    v.nearestDecimal 15 = ⟨(v.mulTenPow (-(v.floorLog10 - 14))).round, v.floorLog10 - 14⟩ := by
  have hexponent : v.floorLog10 + 1 - (15 : Nat) = v.floorLog10 - 14 := by omega
  simp only [Fraction.nearestDecimal, hexponent]

/-- Rounded to fifteen digits, a positive magnitude has them. -/
theorem le_round_fifteen {v : Fraction} (hv : v.num ≠ 0) :
    10 ^ 14 ≤ (v.mulTenPow (-(v.floorLog10 - 14))).round := by
  have hten : (10 : ℚ) ≠ 0 := by norm_num
  apply Fraction.le_round
  rw [Fraction.toRat_mulTenPow]
  calc ((10 ^ 14 : Nat) : ℚ) = (10 : ℚ) ^ v.floorLog10 * (10 : ℚ) ^ (-(v.floorLog10 - 14)) := by
        rw [← zpow_add₀ hten, neg_sub, add_sub_cancel]
        norm_num
    _ ≤ v.toRat * (10 : ℚ) ^ (-(v.floorLog10 - 14)) :=
        mul_le_mul_of_nonneg_right (v.floorLog10_bounds hv).1 (zpow_pos (by norm_num) _).le

/-- A positive magnitude with fifteen digits is written with an exponent, without the zeros at their end. -/
theorem exists_rounding_scientific {v : Fraction} (hv : v.num ≠ 0) :
    ∃ first rest exponent, first ≠ '0' ∧
      scientificMagnitude v = (Numeral.ofPlaces [first] rest (some exponent)).text ∧
      Numeral.IsRounding v (v.floorLog10 - 14) [first] rest (some exponent) := by
  have hcoefficient : (v.mulTenPow (-(v.floorLog10 - 14))).round ≠ 0 := by
    have hround := le_round_fifteen hv
    omega
  simp only [scientificMagnitude, nearestDecimal_fifteen]
  generalize v.floorLog10 - 14 = unit at hcoefficient ⊢
  obtain ⟨first, rest, hwritten, hfirst, hdigits⟩ := Text.exists_decimalDigits_eq_cons hcoefficient
  refine ⟨first, rest, unit + rest.length, hfirst, ?_, by simp, hdigits, ?_, ?_⟩
  · rw [hwritten, scientific_trimZeros hfirst, List.length_cons, Nat.cast_add, Nat.cast_one, ← add_assoc,
      add_sub_cancel_right]
  · rw [Option.getD_some, add_sub_cancel_right]
  · rw [List.singleton_append, ← hwritten, Text.digitsValue_decimalDigits]

/-! ## Magnitudes -/

/-- A rational number that is whole and below 10^16. -/
def IsShortWhole (q : ℚ) : Prop := (∃ z : Int, (z : ℚ) = q) ∧ |q| < 10 ^ 16

/-- A rational number that is not whole and lies between a least one and 10^16. -/
def IsMedium (least q : ℚ) : Prop := (¬∃ z : Int, (z : ℚ) = q) ∧ least ≤ |q| ∧ |q| < 10 ^ 16

/-- A fraction is not large exactly if it is below 10^16. -/
theorem not_atMost_firstLarge_iff (v : Fraction) : (!firstLarge.atMost v) = true ↔ |v.toRat| < 10 ^ 16 := by
  rw [Bool.not_eq_true', Bool.eq_false_iff, ne_eq, Fraction.atMost_iff, not_le, abs_of_nonneg v.toRat_nonneg,
    firstLarge, Fraction.toRat_ofNat, Nat.pow_eq, Nat.cast_pow, Nat.cast_ofNat]

/-- A fraction is shown without a point exactly if it is whole and below 10^16. -/
theorem isShortWhole_toRat_iff (v : Fraction) :
    (v.isWhole && !firstLarge.atMost v) = true ↔ IsShortWhole v.toRat := by
  rw [Bool.and_eq_true, not_atMost_firstLarge_iff, v.isWhole_iff, IsShortWhole]

/-- A fraction that is not whole and small is not zero. -/
theorem num_ne_zero_of_not_isShortWhole {v : Fraction} (h : ¬IsShortWhole v.toRat) : v.num ≠ 0 := by
  intro hzero
  apply h
  rw [v.toRat_eq_zero_iff.mpr hzero]
  exact ⟨⟨0, rfl⟩, by norm_num⟩

/-- A fraction is shown with a point and no exponent exactly if it is of medium size. -/
theorem isMedium_toRat_iff {v : Fraction} (h : ¬IsShortWhole v.toRat) :
    (leastPositional.atMost v && !firstLarge.atMost v) = true ↔ IsMedium leastPositional.toRat v.toRat := by
  rw [Bool.and_eq_true, not_atMost_firstLarge_iff, Fraction.atMost_iff, IsMedium,
    abs_of_nonneg v.toRat_nonneg]
  constructor
  · rintro ⟨hleast, hlarge⟩
    refine ⟨fun hwhole => h ⟨hwhole, ?_⟩, hleast, hlarge⟩
    rwa [abs_of_nonneg v.toRat_nonneg]
  · exact And.right

/-- How a numeral shows a rational number. -/
inductive Shows (n : Numeral) (q : ℚ) : Prop where
  /-- As it is, without a point. -/
  | whole (h : IsShortWhole q) (hfraction : n.fraction = none) (hexponent : n.exponent = none)
      (hvalue : n.exactValue = q)
  /-- Rounded to fifteen places. -/
  | fixed (h : IsMedium leastPositional.toRat q) (hexponent : n.exponent = none)
      (herror : |n.exactValue - q| ≤ (10 : ℚ) ^ (-15 : Int) / 2)
  /-- Rounded to fifteen digits. -/
  | scientific (hwhole : ¬IsShortWhole q) (hmedium : ¬IsMedium leastPositional.toRat q)
      (hexponent : n.exponent.isSome = true) {k : Int} (hlow : (10 : ℚ) ^ k ≤ |q|) (hhigh : |q| < (10 : ℚ) ^ (k + 1))
      (herror : |n.exactValue - q| ≤ (10 : ℚ) ^ (k - 14) / 2)

/-- A magnitude is displayed as a plain numeral that shows it. -/
theorem exists_numeral_shows (v : Fraction) :
    ∃ n : Numeral, displayMagnitude v = n.text ∧ n.IsPlain ∧ Shows n v.toRat := by
  unfold displayMagnitude
  by_cases hwhole : IsShortWhole v.toRat
  · have htest := (isShortWhole_toRat_iff v).mpr hwhole
    have hv := (Bool.and_eq_true_iff.mp htest).1
    obtain ⟨whole, htext, hrounding⟩ := exists_rounding_whole hv
    rw [if_pos htest]
    exact ⟨_, htext, hrounding.isPlain, .whole hwhole rfl rfl
      (hrounding.exactValue_eq.trans (Fraction.roundOn_of_isWhole hv le_rfl))⟩
  · rw [if_neg (mt (isShortWhole_toRat_iff v).mp hwhole)]
    by_cases hmedium : IsMedium leastPositional.toRat v.toRat
    · obtain ⟨whole, places, htext, hrounding⟩ := exists_rounding_fixed v
      rw [if_pos ((isMedium_toRat_iff hwhole).mpr hmedium)]
      exact ⟨_, htext, hrounding.isPlain, .fixed hmedium rfl hrounding.abs_sub_le⟩
    · have hnum := num_ne_zero_of_not_isShortWhole hwhole
      obtain ⟨first, rest, exponent, -, htext, hrounding⟩ := exists_rounding_scientific hnum
      obtain ⟨hlow, hhigh⟩ := v.floorLog10_bounds hnum
      rw [← abs_of_nonneg v.toRat_nonneg] at hlow hhigh
      rw [if_neg (mt (isMedium_toRat_iff hwhole).mp hmedium)]
      exact ⟨_, htext, hrounding.isPlain, .scientific hwhole hmedium rfl hlow hhigh hrounding.abs_sub_le⟩

/-- Only zero is shown as zero: what is shown of another number is nearer to it than zero. -/
theorem Shows.exactValue_ne_zero {n : Numeral} {q : ℚ} (h : Shows n q) (hq : q ≠ 0) : n.exactValue ≠ 0 := by
  have hnear : |n.exactValue - q| < |q| := by
    cases h with
    | whole h hfraction hexponent hvalue =>
        rw [hvalue, sub_self, abs_zero]
        exact abs_pos.mpr hq
    | fixed h hexponent herror =>
        have hleast : (10 : ℚ) ^ (-15 : Int) / 2 < leastPositional.toRat := by
          rw [Binary64.toRat_leastPositional, Binary64.millionthUnit]
          norm_num
        exact herror.trans_lt (hleast.trans_le h.2.1)
    | @scientific hwhole hmedium hexponent k hlow hhigh herror =>
        have hpos : (0 : ℚ) < (10 : ℚ) ^ k := zpow_pos (by norm_num) k
        have hgrid : (10 : ℚ) ^ (k - 14) ≤ (10 : ℚ) ^ k := zpow_le_zpow_right₀ (by norm_num) (by omega)
        linarith
  intro hzero
  rw [hzero, zero_sub, abs_neg] at hnear
  exact absurd hnear (lt_irrefl _)

/-! ## Numbers -/

/-- The sign does not matter for whether a number is whole and small. -/
theorem isShortWhole_signed_iff (negative : Bool) (q : ℚ) : IsShortWhole (signed negative q) ↔ IsShortWhole q := by
  rw [IsShortWhole, exists_intCast_eq_signed_iff, abs_signed, IsShortWhole]

/-- The sign does not matter for whether a number is of medium size. -/
theorem isMedium_signed_iff (negative : Bool) (least q : ℚ) :
    IsMedium least (signed negative q) ↔ IsMedium least q := by
  rw [IsMedium, exists_intCast_eq_signed_iff, abs_signed, IsMedium]

/-- A finite number is displayed as a plain numeral that shows its magnitude; a minus sign stands before it
exactly if the number is below zero. -/
theorem exists_display_eq {x : Float} {r : ℚ} (h : Binary64.exactValue? x = some r) :
    ∃ (negative : Bool) (q : ℚ) (n : Numeral), r = signed negative q ∧ (negative = true → q ≠ 0) ∧
      n.IsPlain ∧ Shows n q ∧ display x = signText negative ++ String.ofList n.text := by
  obtain ⟨negative, v, hdatum, rfl⟩ := Binary64.exactValue?_eq_some_iff.mp h
  obtain ⟨n, htext, hplain, hshows⟩ := exists_numeral_shows v
  refine ⟨negative && v.num != 0, v.toRat, n, ?_, ?_, hplain, hshows, ?_⟩
  · by_cases hzero : v.num = 0
    · rw [v.toRat_eq_zero_iff.mpr hzero]
      cases negative <;> simp [signed]
    · rw [bne_iff_ne.mpr hzero, Bool.and_true]
  · intro hnegative
    rw [ne_eq, v.toRat_eq_zero_iff]
    simpa using (Bool.and_eq_true_iff.mp hnegative).2
  · simp only [display, hdatum, htext]

/-- The sign adds no character to a text but a minus. -/
theorem mem_signText_append_iff {c : Char} (hc : c ≠ '-') (negative : Bool) (cs : List Char) :
    c ∈ (signText negative ++ String.ofList cs).toList ↔ c ∈ cs := by
  rw [String.toList_append, String.toList_ofList, List.mem_append, or_iff_right]
  cases negative <;> simp [signText, hc]

/-- The text of zero denotes zero. -/
theorem exactValue_of_text_eq_zero {n : Numeral} (h : n.IsPlain) (htext : n.text = ['0']) : n.exactValue = 0 := by
  have htake := Numeral.take_text h.wellFormed
  rw [htext] at htake
  have hn : n = ⟨['0'], none, none⟩ := congrArg Prod.fst htake.symm
  have hcoefficient : n.decimal.coefficient = 0 := by
    rw [hn]
    decide
  rw [← Numeral.toRat_decimal, Decimal.toRat, hcoefficient, Nat.cast_zero, zero_mul]

/-- Unless its value is zero, a plain numeral with a sign is not written as minus zero. -/
theorem signText_append_ne_minusZero {n : Numeral} (h : n.IsPlain) {negative : Bool}
    (hne : negative = true → n.exactValue ≠ 0) : signText negative ++ String.ofList n.text ≠ "-0" := by
  intro hminus
  have hlist := congrArg String.toList hminus
  rw [String.toList_append, String.toList_ofList] at hlist
  cases negative with
  | true => exact hne rfl (exactValue_of_text_eq_zero h (List.cons.inj hlist).2)
  | false =>
      obtain ⟨c, tail, htext, hdigit⟩ := h.wellFormed.exists_text_eq_cons
      rw [htext] at hlist
      obtain rfl : c = '-' := (List.cons.inj hlist).1
      exact absurd hdigit (by decide)

/-- The display of a finite number is a plain numeral with its sign, and never a negative zero. A whole number
below 10^16 is displayed as it is, without a point. Any other number below 10^16 is displayed without an exponent
from the number nearest to a millionth on, and half a unit of the fifteenth place away at most. The display of
all others has an exponent, and is half a unit of the fifteenth digit away at most. -/
theorem display_accurate_and_plain {x : Float} {r : ℚ} (h : Binary64.exactValue? x = some r) :
    IsPlainText (display x) ∧ display x ≠ "-0" ∧ ∃ d, Binary64.IsNearest ((10 : ℚ) ^ (-6 : Int)) d ∧
      (IsShortWhole r → denoted (display x) = r ∧ '.' ∉ (display x).toList ∧ 'e' ∉ (display x).toList) ∧
      (IsMedium d r → |denoted (display x) - r| ≤ (10 : ℚ) ^ (-15 : Int) / 2 ∧ 'e' ∉ (display x).toList) ∧
      (¬IsShortWhole r → ¬IsMedium d r → ∃ k : Int, (10 : ℚ) ^ k ≤ |r| ∧ |r| < (10 : ℚ) ^ (k + 1) ∧
        |denoted (display x) - r| ≤ (10 : ℚ) ^ (k - 14) / 2 ∧ 'e' ∈ (display x).toList) := by
  obtain ⟨negative, q, n, rfl, hzero, hplain, hshows, htext⟩ := exists_display_eq h
  have hpoint := mem_signText_append_iff (show '.' ≠ '-' by decide) negative n.text
  have hmark := mem_signText_append_iff (show 'e' ≠ '-' by decide) negative n.text
  rw [hplain.point_mem_text_iff] at hpoint
  rw [hplain.mark_mem_text_iff] at hmark
  refine ⟨⟨negative, n, hplain, htext⟩, ?_, leastPositional.toRat, Binary64.isNearest_leastPositional, ?_⟩
  · rw [htext]
    exact signText_append_ne_minusZero hplain fun hnegative => hshows.exactValue_ne_zero (hzero hnegative)
  · rw [isShortWhole_signed_iff, isMedium_signed_iff, htext, denoted_signText_append hplain, hpoint, hmark,
      abs_signed_sub_signed, abs_signed]
    cases hshows with
    | whole h hfraction hexponent hvalue =>
        refine ⟨fun _ => ?_, fun hmedium => absurd h.1 hmedium.1, fun hwhole => absurd h hwhole⟩
        rw [hvalue, hfraction, hexponent]
        simp
    | fixed h hexponent herror =>
        refine ⟨fun hwhole => absurd hwhole.1 h.1, fun _ => ?_, fun _ hmedium => absurd h hmedium⟩
        rw [hexponent]
        exact ⟨herror, by simp⟩
    | @scientific hwhole hmedium hexponent k hlow hhigh herror =>
        refine ⟨fun h => absurd h hwhole, fun h => absurd h hmedium, fun _ _ => ?_⟩
        exact ⟨k, hlow, hhigh, herror, hexponent⟩

/-- A whole number of eighteen digits is rounded to fifteen of them. -/
theorem display_accurate_and_plain_eighteen_digits :
    let x : Float := -123456789012345680
    let r : ℚ := -123456789012345680
    Binary64.exactValue? x = some r ∧ display x = "-1.23456789012346e+17" ∧ IsPlainText (display x) ∧
      ∃ k : Int, (10 : ℚ) ^ k ≤ |r| ∧ |r| < (10 : ℚ) ^ (k + 1) ∧
        |denoted (display x) - r| ≤ (10 : ℚ) ^ (k - 14) / 2 ∧ 'e' ∈ (display x).toList := by
  intro x r
  have hx : Binary64.exactValue? x = some r := by
    have hdatum : Binary64.datum (-123456789012345680) =
        .finite true (Binary64.magnitude (-123456789012345680 : Float).toBits.toNat) := rfl
    have hnum : (Binary64.magnitude (-123456789012345680 : Float).toBits.toNat).num = 123456789012345680 := by
      decide +kernel
    have hden : (Binary64.magnitude (-123456789012345680 : Float).toBits.toNat).den = 1 := by
      decide +kernel
    refine Binary64.exactValue?_eq_some_iff.mpr ⟨_, _, hdatum, ?_⟩
    rw [Fraction.toRat, hnum, hden]
    norm_num [signed, r]
  have hlarge : ¬IsShortWhole r := fun h => absurd h.2 (by norm_num [r])
  have hwhole : ∀ d, ¬IsMedium d r := fun d h => h.1 ⟨-123456789012345680, by norm_num [r]⟩
  obtain ⟨hplain, -, d, -, -, -, hscientific⟩ := display_accurate_and_plain hx
  exact ⟨hx, by decide +kernel, hplain, hscientific hlarge (hwhole d)⟩

end Number

end Calculator
