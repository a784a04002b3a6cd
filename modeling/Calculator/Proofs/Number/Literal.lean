import Calculator.Proofs.Number.Comparison
import Calculator.Proofs.Number.Displayed
import Calculator.Proofs.Number.ReadBack

/-!
# Literals identify numbers

The literal of a finite number is a numeral, with its sign, that denotes the shortest decimal of the number, both
with an exponent and without (`spells_scientific`, `spells_positional`). That decimal reads back, so the word of a
number is found from its literal (`literalWord_literal`), and no two numbers share one (`literal_injective`).
-/

set_option autoImplicit false

namespace Calculator

/-! ## Digits and the place of the point -/

namespace Text

/-- The rational number that some digits denote with the point after so many of them; that may be negative or more
than there are digits. -/
def pointed (cs : List Char) (point : Int) : ℚ := digitsValue cs * (10 : ℚ) ^ (point - cs.length)

/-- A run of one character is as long as it is asked to be. -/
theorem length_fill (k : Nat) (c : Char) : (fill k c).length = k := List.length_replicate

/-- Zeros in front move the point. -/
theorem pointed_fill_append (k : Nat) (cs : List Char) (point : Int) :
    pointed (fill k '0' ++ cs) (point + k) = pointed cs point := by
  rw [pointed, digitsValue_fill_append, List.length_append, length_fill, Nat.cast_add, add_comm (k : Int),
    add_sub_add_right_eq_sub, pointed]

/-- Zeros at the end change nothing. -/
theorem pointed_append_fill (cs : List Char) (k : Nat) (point : Int) :
    pointed (cs ++ fill k '0') point = pointed cs point := by
  have hexponent : (k : Int) + (point - (cs.length + k : Nat)) = point - cs.length := by omega
  rw [pointed, digitsValue_append_fill, List.length_append, length_fill, Nat.cast_mul, Nat.cast_pow, mul_assoc,
    Nat.cast_ofNat, ← zpow_natCast, ← zpow_add₀ (by norm_num), hexponent, pointed]

/-- Zeros at the end do not change the number that digits denote around a point. -/
theorem pointed_trimZeros (cs : List Char) (point : Int) : pointed (trimZeros cs) point = pointed cs point := by
  obtain ⟨k, hk⟩ := exists_zeros_behind cs
  conv_rhs => rw [hk]
  rw [pointed_append_fill]

/-- Zeros are digits. -/
theorem isDigit_of_mem_fill {k : Nat} {c : Char} (h : c ∈ fill k '0') : isDigit c = true := by
  rw [List.eq_of_mem_replicate h]
  decide

/-- A digit is no line break. -/
theorem isLineBreak_eq_false_of_isDigit {c : Char} (h : isDigit c = true) : isLineBreak c = false := by
  by_contra hbreak
  simp only [isLineBreak, Bool.not_eq_false, Bool.or_eq_true, beq_iff_eq] at hbreak
  rcases hbreak with (((((((((rfl | rfl) | rfl) | rfl) | rfl) | rfl) | rfl) | rfl) | rfl) | rfl) <;>
    exact absurd h (by decide)

end Text

namespace Numeral

/-- A numeral denotes its digits with the point moved by its exponent. -/
theorem exactValue_eq_pointed (n : Numeral) : n.exactValue =
    Text.pointed (n.whole ++ n.fraction.getD []) (n.whole.length + (n.exponent.map Exponent.value).getD 0) := by
  simp only [← toRat_decimal, Decimal.toRat, decimal, Text.pointed, List.length_append]
  congr 2
  omega

/-- A numeral is written on one line. -/
theorem WellFormed.unbroken {n : Numeral} (h : n.WellFormed) {c : Char} (hc : c ∈ n.text) :
    Text.isLineBreak c = false := by
  simp only [text, fractionText, List.mem_append] at hc
  rcases hc with (hc | hc) | hc
  · exact Text.isLineBreak_eq_false_of_isDigit (h.whole c hc)
  · cases hfraction : n.fraction with
    | none => simp [hfraction] at hc
    | some digits =>
        rw [hfraction, Option.map_some, Option.getD_some, List.mem_cons] at hc
        rcases hc with rfl | hc
        · decide
        · exact Text.isLineBreak_eq_false_of_isDigit (h.fraction digits hfraction c hc)
  · cases hexponent : n.exponent with
    | none => simp [hexponent] at hc
    | some e =>
        obtain ⟨hmark, hsign, hdigits⟩ := h.exponent e hexponent
        rw [hexponent, Option.map_some, Option.getD_some, Exponent.text, List.mem_cons, List.mem_append,
          Option.mem_toList] at hc
        rcases hc with rfl | hc | hc
        · rcases hmark with hmark | hmark <;> rw [hmark] <;> decide
        · rcases hsign c hc with rfl | rfl <;> decide
        · exact Text.isLineBreak_eq_false_of_isDigit (hdigits c hc)

/-- `Spells cs q`: the text is a well-formed numeral that denotes the number. -/
def Spells (cs : List Char) (q : ℚ) : Prop := ∃ n : Numeral, n.WellFormed ∧ n.text = cs ∧ n.exactValue = q

/-- Digits around a point spell the number that they denote. -/
theorem spells_point (whole fraction : List Char) (hne : whole ≠ [])
    (hdigits : ∀ c ∈ whole ++ fraction, Text.isDigit c = true) :
    Spells (whole ++ '.' :: fraction) (Text.pointed (whole ++ fraction) whole.length) := by
  refine ⟨⟨whole, some fraction, none⟩, ⟨hne, ?_, ?_, by simp⟩, ?_, ?_⟩
  · exact fun c hc => hdigits c (List.mem_append_left _ hc)
  · intro _ hsome c hc
    cases hsome
    exact hdigits c (List.mem_append_right _ hc)
  · exact List.append_nil _
  · rw [exactValue_eq_pointed]
    exact congrArg _ (add_zero _)

end Numeral

/-! ## Numbers and their words -/

namespace Binary64

/-- All that a number can be: a sign with a magnitude, a sign with infinity, or the one word that is no number. -/
theorem datum_cases (x : Float) : ∃ negative : Bool,
    (if negative then 2 ^ 63 else 0) + x.toBits.toNat % 2 ^ 63 = x.toBits.toNat ∧
      (datum x = .finite negative (magnitude x.toBits.toNat) ∨
        datum x = .infinite negative ∧ x.toBits.toNat % 2 ^ 63 = infinityWord ∨
        datum x = .nan ∧ x.toBits.toNat = infinityWord + 2 ^ 51) := by
  have hlt : x.toBits.toNat < 2 ^ 64 := x.toBits.toNat_lt
  refine ⟨x.toBits.toNat / 2 ^ 63 % 2 == 1, ?_, ?_⟩
  · split
    · next hone =>
      have hone := eq_of_beq hone
      omega
    · next hzero =>
      have hzero := mt beq_iff_eq.mpr hzero
      omega
  · unfold datum
    simp only [Nat.pow_eq]
    split
    · next hfield =>
      right
      split
      · next hfraction =>
        refine .inl ⟨rfl, ?_⟩
        rw [infinityWord, Nat.pow_eq]
        omega
      · next hfraction =>
        refine .inr ⟨rfl, ?_⟩
        have hword := x.toModel.valid.eq_packedNaN (unpackExponent_eq_iff.mpr hfield) fun hnone =>
          hfraction (toNat_unpackMantissa.symm.trans (congrArg BitVec.toNat hnone))
        exact congrArg BitVec.toNat hword
    · exact .inl rfl

/-- A decimal without a coefficient rounds to zero. -/
theorem nearestWord_value_eq_zero {d : Decimal} (h : d.coefficient = 0) : nearestWord d.value = 0 := by
  rw [nearestWord, if_pos]
  rw [Decimal.value, h]
  exact Nat.zero_mul _

end Binary64

namespace Number

open Numeral (Spells)

/-! ## The two forms -/

/-- Digits with a point, where zeros stand for what is missing before it or behind it, denote what they do on
their own. -/
theorem spells_positional {digits : List Char} (hdigits : ∀ c ∈ digits, Text.isDigit c = true) (point : Int) :
    Spells (positional digits point) (Text.pointed digits point) := by
  unfold positional
  split
  · next hpoint =>
    have hplace : point + ((-point).toNat + 1 : Nat) = 1 := by omega
    rw [← Text.pointed_fill_append ((-point).toNat + 1), hplace]
    refine Numeral.spells_point ['0'] _ (by simp) fun c hc => ?_
    rw [← List.append_assoc, List.mem_append] at hc
    exact hc.elim (Text.isDigit_of_mem_fill (k := (-point).toNat + 1)) (hdigits c)
  · next hpoint =>
    obtain ⟨k, rfl⟩ := Int.eq_ofNat_of_zero_le (show 0 ≤ point by omega)
    simp only [Int.toNat_natCast]
    by_cases hlength : digits.length ≤ k
    · -- Zeros fill up the digits before the point, and one more stands behind it.
      have hplace : (digits ++ Text.fill (k - digits.length) '0').length = k := by
        rw [List.length_append, Text.length_fill]
        omega
      have hne : digits ++ Text.fill (k - digits.length) '0' ≠ [] := by
        rw [← List.length_pos_iff]
        omega
      have hspells := Numeral.spells_point _ (Text.fill 1 '0') hne fun c hc => by
        rw [List.append_assoc, List.mem_append, List.mem_append] at hc
        exact hc.elim (hdigits c) fun hc => hc.elim Text.isDigit_of_mem_fill Text.isDigit_of_mem_fill
      rw [Text.pointed_append_fill, Text.pointed_append_fill, hplace] at hspells
      rwa [List.take_of_length_le hlength, List.drop_of_length_le hlength]
    · have hfraction : (digits.drop k).isEmpty = false := by
        rw [List.isEmpty_eq_false_iff, ← List.length_pos_iff, List.length_drop]
        omega
      have hplace : (digits.take k).length = k := List.length_take_of_le (by omega)
      have hne : digits.take k ≠ [] := by
        rw [← List.length_pos_iff]
        omega
      have hspells := Numeral.spells_point _ (digits.drop k) hne fun c hc => by
        rw [List.take_append_drop] at hc
        exact hdigits c hc
      rw [List.take_append_drop, hplace] at hspells
      rw [hplace, Nat.sub_self, hfraction]
      simpa [Text.fill] using hspells

/-- Digits with an exponent spell the number that they denote around the point that it moves. -/
theorem spells_scientific {first : Char} {rest : List Char} (hfirst : first ≠ '0')
    (hdigits : ∀ c ∈ first :: rest, c.isDigit = true) (exponent : Int) :
    Spells (scientific (Text.trimZeros (first :: rest)) exponent) (Text.pointed (first :: rest) (exponent + 1)) := by
  have hplain : (Numeral.ofPlaces [first] rest (some exponent)).IsPlain :=
    Numeral.isPlain_ofPlaces (by simp) (by simpa using hdigits first List.mem_cons_self)
      fun c hc => hdigits c (List.mem_cons_of_mem first hc)
  refine ⟨_, hplain.wellFormed, (scientific_trimZeros hfirst rest exponent).symm, ?_⟩
  rw [Numeral.exactValue_ofPlaces, Text.pointed, List.singleton_append, List.length_cons, Nat.cast_add, Nat.cast_one,
    add_sub_add_right_eq_sub, Option.getD_some]

/-! ## Magnitudes -/

/-- A decimal is its digits with the point moved by its exponent. -/
theorem pointed_decimalDigits (d : Decimal) :
    Text.pointed (Text.decimalDigits d.coefficient) ((Text.decimalDigits d.coefficient).length + d.exponent) =
      d.toRat := by
  rw [Text.pointed, Text.digitsValue_decimalDigits, add_sub_cancel_left, Decimal.toRat]

/-- A positive magnitude is spelled by the digits of its shortest decimal. -/
theorem spells_magnitudeLiteral_of_ne_zero {word : Nat} (h : (Binary64.magnitude word).num ≠ 0)
    (hcoefficient : (Binary64.shortestDecimal word).coefficient ≠ 0) :
    Spells (magnitudeLiteral word) (Binary64.shortestDecimal word).toRat := by
  simp only [magnitudeLiteral, if_neg h, ← pointed_decimalDigits]
  generalize (Binary64.shortestDecimal word).exponent = exponent
  obtain ⟨first, rest, hwritten, hfirst, hdigits⟩ := Text.exists_decimalDigits_eq_cons hcoefficient
  rw [hwritten]
  split
  · rw [← Text.pointed_trimZeros]
    exact spells_positional (fun c hc => Text.isDigit_of_isDigit (hdigits c (Text.mem_of_mem_trimZeros hc))) _
  · have hspells := spells_scientific hfirst hdigits ((first :: rest).length + exponent - 1)
    rwa [sub_add_cancel] at hspells

/-- The literal of a magnitude spells a decimal that reads back. -/
theorem spells_magnitudeLiteral {word : Nat} (h : word < 2 ^ 63) :
    ∃ d : Decimal, Spells (magnitudeLiteral word) d.toRat ∧ Binary64.nearestWord d.value = word := by
  by_cases hzero : (Binary64.magnitude word).num = 0
  · have hword : 0 = word := by
      have hmagnitude := Binary64.nearestWord_magnitude word
      rwa [Nat.mod_eq_of_lt h, Binary64.nearestWord, if_pos hzero] at hmagnitude
    have hspells := Numeral.spells_point ['0'] ['0'] (by simp) fun c hc => Text.isDigit_of_mem_fill (k := 2) hc
    have hdigits : Text.digitsValue (['0'] ++ ['0']) = 0 := by decide
    refine ⟨⟨0, -1⟩, ?_, (Binary64.nearestWord_value_eq_zero rfl).trans hword⟩
    rw [magnitudeLiteral, if_pos hzero]
    rwa [Text.pointed, hdigits] at hspells
  · have hback := Binary64.nearestWord_shortestDecimal h
    refine ⟨_, spells_magnitudeLiteral_of_ne_zero hzero ?_, hback⟩
    intro hcoefficient
    rw [Binary64.nearestWord_value_eq_zero hcoefficient] at hback
    rw [← hback] at hzero
    exact hzero rfl

/-- The literal of a magnitude is a numeral that is read back as the word of that magnitude. -/
theorem exists_numeral_magnitudeLiteral {word : Nat} (h : word < 2 ^ 63) :
    ∃ n : Numeral, n.WellFormed ∧ magnitudeLiteral word = n.text ∧ Binary64.nearestWord n.decimal.value = word := by
  obtain ⟨d, ⟨n, hn, htext, hvalue⟩, hword⟩ := spells_magnitudeLiteral h
  have hnearest : Binary64.nearestWord n.decimal.value = Binary64.nearestWord d.value := by
    apply Binary64.nearestWord_congr
    rw [Decimal.toRat_value, Numeral.toRat_decimal, hvalue, Decimal.toRat_value]
  exact ⟨n, hn, htext.symm, hnearest.trans hword⟩

/-! ## The word of a literal -/

/-- The word of the number that has a literal without a sign. -/
def unsignedWord (cs : List Char) : Nat :=
  if cs = "inf".toList then Binary64.infinityWord
  else if cs = "nan".toList then Binary64.infinityWord + 2 ^ 51
  else Binary64.nearestWord (Numeral.take cs).1.decimal.value

/-- The word of the number that has a literal. -/
def literalWord (cs : List Char) : Nat :=
  match cs with
  | '-' :: rest => 2 ^ 63 + unsignedWord rest
  | cs => unsignedWord cs

/-- A literal with a sign is read as the word of the magnitude with the sign bit set. -/
theorem literalWord_signText_append {cs : List Char} (h : cs.head? ≠ some '-') (negative : Bool) :
    literalWord (signText negative ++ String.ofList cs).toList =
      (if negative then 2 ^ 63 else 0) + unsignedWord cs := by
  have htext : (signText negative ++ String.ofList cs).toList = (signText negative).toList ++ cs := by
    rw [String.toList_append, String.toList_ofList]
  rw [htext]
  cases negative with
  | true => rfl
  | false =>
      have hplain : literalWord cs = unsignedWord cs := by
        unfold literalWord
        split
        · exact absurd rfl h
        · rfl
      exact hplain.trans (Nat.zero_add _).symm

/-- A well-formed numeral starts with no minus and is read as the word nearest to it. -/
theorem unsignedWord_text {n : Numeral} (h : n.WellFormed) :
    n.text.head? ≠ some '-' ∧ unsignedWord n.text = Binary64.nearestWord n.decimal.value := by
  obtain ⟨c, tail, htext, hc⟩ := h.exists_text_eq_cons
  have hhead : ∀ d, Text.isDigit d = false → n.text.head? ≠ some d := by
    intro d hd hsome
    rw [htext, List.head?_cons, Option.some.injEq] at hsome
    rw [hsome, hd] at hc
    cases hc
  have hinf : n.text ≠ "inf".toList := fun heq => hhead 'i' (by decide) (by rw [heq]; rfl)
  have hnan : n.text ≠ "nan".toList := fun heq => hhead 'n' (by decide) (by rw [heq]; rfl)
  refine ⟨hhead '-' (by decide), ?_⟩
  rw [unsignedWord, if_neg hinf, if_neg hnan, Numeral.take_text h]

/-- The word of a number is found from its literal. -/
theorem literalWord_literal (x : Float) : literalWord (literal x).toList = x.toBits.toNat := by
  obtain ⟨negative, hsign, hfinite | ⟨hinfinite, hword⟩ | ⟨hnan, hword⟩⟩ := Binary64.datum_cases x
  · obtain ⟨n, hn, htext, hword⟩ := exists_numeral_magnitudeLiteral (x.toBits.toNat.mod_lt (Nat.two_pow_pos 63))
    obtain ⟨hhead, hunsigned⟩ := unsignedWord_text hn
    rw [literal, hfinite]
    simp only [Nat.pow_eq]
    rw [htext, literalWord_signText_append hhead, hunsigned, hword, hsign]
  · have hhead : "inf".toList.head? ≠ some '-' := by decide
    rw [literal, hinfinite, ← String.ofList_toList (s := "inf"), literalWord_signText_append hhead, ← hsign, hword]
    rfl
  · rw [literal, hnan, hword]
    rfl

/-- No two numbers share a literal. -/
theorem literal_injective : Function.Injective literal := by
  intro x y h
  have hword : x.toBits.toNat = y.toBits.toNat := by
    rw [← literalWord_literal, ← literalWord_literal, h]
  obtain ⟨⟨bits, _⟩⟩ := x
  obtain ⟨⟨bits', _⟩⟩ := y
  obtain rfl : bits = bits' := UInt64.toNat_inj.mp hword
  rfl

/-- A sign puts no line break before a text. -/
theorem unbroken_signText_append {text : String} (h : text.toList.any Text.isLineBreak = false)
    (negative : Bool) : (signText negative ++ text).toList.any Text.isLineBreak = false := by
  have hsign : (signText negative).toList.any Text.isLineBreak = false := by
    cases negative <;> decide
  rw [String.toList_append, List.any_append, hsign, h]
  rfl

/-- A literal is written on one line. -/
theorem unbroken_literal (x : Float) : (literal x).toList.any Text.isLineBreak = false := by
  obtain ⟨negative, -, hfinite | ⟨hinfinite, -⟩ | ⟨hnan, -⟩⟩ := Binary64.datum_cases x
  · obtain ⟨n, hn, htext, -⟩ := exists_numeral_magnitudeLiteral (x.toBits.toNat.mod_lt (Nat.two_pow_pos 63))
    rw [literal, hfinite]
    apply unbroken_signText_append
    simp only [Nat.pow_eq]
    rw [htext, String.toList_ofList, List.any_eq_false]
    exact fun c hc => Bool.eq_false_iff.mp (hn.unbroken hc)
  · rw [literal, hinfinite]
    exact unbroken_signText_append (by decide) negative
  · have hletters : "nan".toList.any Text.isLineBreak = false := by decide
    rw [literal, hnan]
    exact hletters

end Number

end Calculator
