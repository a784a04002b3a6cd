import Calculator.Token.Numeral
import Mathlib.Data.List.TakeWhile

/-!
# The longest numeral

A numeral is well formed if its parts are: at least one digit, then perhaps a point with digits, then
perhaps an exponent with a mark, a sign and digits, where the digits after the point and those of the
exponent may be missing. What is taken at the start of a text that starts with a digit is well formed
(`wellFormed_take`), and no well-formed numeral at the start of the text is longer
(`length_text_le_length_take`).

The second statement goes part by part. A part that is read greedily leaves no more of the text than
the same part of any other numeral does, and what it takes beyond that one can only shorten what is
left for the parts after it.
-/

set_option autoImplicit false

namespace Calculator

/-! ## Well-formed numerals -/

/-- An exponent with one of the two marks, one of the two signs if any, and only digits. -/
structure Exponent.WellFormed (e : Exponent) : Prop where
  mark : e.mark = 'e' ∨ e.mark = 'E'
  sign : ∀ c ∈ e.sign, c = '+' ∨ c = '-'
  digits : ∀ c ∈ e.digits, Text.isDigit c = true

/-- A numeral of digits that starts with one. -/
structure Numeral.WellFormed (n : Numeral) : Prop where
  nonempty : n.whole ≠ []
  whole : ∀ c ∈ n.whole, Text.isDigit c = true
  fraction : ∀ digits ∈ n.fraction, ∀ c ∈ digits, Text.isDigit c = true
  exponent : ∀ e ∈ n.exponent, e.WellFormed

/-- An exponent that is taken off is well-formed. -/
theorem Exponent.wellFormed_take {cs : List Char} {e : Exponent} (h : (take cs).1 = some e) :
    e.WellFormed := by
  have hdigits : ∀ ds : List Char, ∀ c ∈ ds.takeWhile Text.isDigit, Text.isDigit c = true :=
    fun ds c hc => List.mem_takeWhile_imp hc
  unfold take at h
  split at h
  · cases h
  · next mark rest =>
    split at h
    · next hmark =>
      split at h
      · cases h
        exact ⟨hmark, by simp, by simp⟩
      · next sign digits =>
        split at h
        · next hsign =>
          cases h
          exact ⟨hmark, by simpa using hsign, hdigits digits⟩
        · cases h
          exact ⟨hmark, by simp, hdigits _⟩
    · cases h

/-- A fraction that is taken off consists of digits. -/
theorem Numeral.fraction_takeFraction {cs digits : List Char}
    (h : (takeFraction cs).1 = some digits) : ∀ c ∈ digits, Text.isDigit c = true := by
  unfold takeFraction at h
  split at h
  · cases h
    exact fun c hc => List.mem_takeWhile_imp hc
  · cases h

/-- What is taken at the start of a text that starts with a digit is a well-formed numeral. -/
theorem Numeral.wellFormed_take {c : Char} (h : Text.isDigit c = true) (cs : List Char) :
    (take (c :: cs)).1.WellFormed where
  nonempty := by simp [take, h]
  whole _ hd := List.mem_takeWhile_imp hd
  fraction _ hdigits := fraction_takeFraction hdigits
  exponent _ he := Exponent.wellFormed_take he

/-! ## No numeral is longer -/

/-- Dropping characters leaves no more than there were. -/
theorem length_dropWhile_le {α : Type} (p : α → Bool) (cs : List α) :
    (cs.dropWhile p).length ≤ cs.length := (List.dropWhile_suffix p).length_le

namespace Exponent

/-- Taking an exponent off leaves no more than there was. -/
theorem length_rest_le (cs : List Char) : (take cs).2.length ≤ cs.length := by
  have hsplit := congrArg List.length (text_append_rest cs)
  rw [List.length_append] at hsplit
  omega

/-- Taking an exponent off leaves no more than what stands behind a well-formed one. -/
theorem length_rest_take_text_append_le {e : Exponent} (h : e.WellFormed) (rest : List Char) :
    (take (e.text ++ rest)).2.length ≤ rest.length := by
  obtain ⟨mark, sign, digits⟩ := e
  have hmark := h.mark
  have hdigits : (digits ++ rest).dropWhile Text.isDigit = rest.dropWhile Text.isDigit :=
    List.dropWhile_append_of_pos h.digits
  cases sign with
  | some sign =>
      have hsign := h.sign sign rfl
      simp only [text, Option.toList_some, List.cons_append, List.nil_append, take, if_pos hmark,
        if_pos hsign, hdigits]
      exact length_dropWhile_le _ rest
  | none =>
      simp only [text, Option.toList_none, List.cons_append, List.nil_append, take, if_pos hmark]
      -- A sign may follow at once if no digit does; it is then taken as well.
      split
      · exact Nat.zero_le _
      · next c cs hcs =>
        split
        · next hsign =>
          cases digits with
          | nil =>
              rw [List.nil_append] at hcs
              rw [hcs]
              exact (length_dropWhile_le _ cs).trans (Nat.le_succ _)
          | cons d digits =>
              have hd : Text.isDigit d = true := h.digits d List.mem_cons_self
              cases hcs
              rcases hsign with rfl | rfl <;> exact absurd hd (by decide)
        · rw [hdigits]
          exact length_dropWhile_le _ rest

/-- The letter of an exponent is no digit. -/
theorem not_isDigit_of_mark {c : Char} (h : c = 'e' ∨ c = 'E') : Text.isDigit c = false := by
  rcases h with rfl | rfl <;> decide

section Optional

variable {exponent : Option Exponent} (h : ∀ e ∈ exponent, e.WellFormed) (rest : List Char)
include h

/-- Taking an exponent goes at least as far as any optional exponent at the start of the text. -/
theorem length_rest_take_append_le :
    (take ((exponent.map text).getD [] ++ rest)).2.length ≤ rest.length := by
  cases exponent with
  | none => exact length_rest_le rest
  | some e => exact length_rest_take_text_append_le (h e rfl) rest

/-- Behind digits too, taking an exponent off leaves no more than what stands behind a well-formed one. -/
theorem length_rest_take_dropWhile_append_le :
    (take (((exponent.map text).getD [] ++ rest).dropWhile Text.isDigit)).2.length ≤ rest.length := by
  cases exponent with
  | none => exact (length_rest_le _).trans (length_dropWhile_le _ rest)
  | some e =>
      have hmark := not_isDigit_of_mark (h e rfl).mark
      have hstop : (e.text ++ rest).dropWhile Text.isDigit = e.text ++ rest := by
        simp [text, hmark]
      simp only [Option.map_some, Option.getD_some, hstop]
      exact length_rest_take_text_append_le (h e rfl) rest

end Optional

end Exponent

namespace Numeral

/-- Taking a fraction off leaves no more than there was. -/
theorem length_rest_takeFraction_le (cs : List Char) : (takeFraction cs).2.length ≤ cs.length := by
  have hsplit := congrArg List.length (takeFraction_append cs)
  rw [List.length_append] at hsplit
  omega

/-- Without a point in front, no fraction is taken off. -/
theorem takeFraction_of_ne {cs : List Char} (h : cs.head? ≠ some '.') :
    takeFraction cs = (none, cs) := by
  unfold takeFraction
  split
  · exact absurd rfl h
  · rfl

variable {n : Numeral}

/-- Without a point, taking a fraction cannot hold up the exponent. -/
theorem length_rest_exponent_le (h : n.WellFormed) (rest : List Char) :
    (Exponent.take (takeFraction ((n.exponent.map Exponent.text).getD [] ++ rest)).2).2.length ≤
      rest.length := by
  have hexponent := h.exponent
  cases hn : n.exponent with
  | none => exact (Exponent.length_rest_le _).trans (length_rest_takeFraction_le rest)
  | some e =>
      rw [hn] at hexponent
      have hpoint : e.mark ≠ '.' := by
        rcases (hexponent e rfl).mark with hmark | hmark <;> rw [hmark] <;> decide
      rw [takeFraction_of_ne (by simpa [Exponent.text] using hpoint)]
      exact Exponent.length_rest_take_append_le hexponent rest

/-- Taking a fraction and an exponent off leaves no more than what stands behind those of a well-formed
numeral. -/
theorem length_rest_fraction_le (h : n.WellFormed) (rest : List Char) :
    (Exponent.take (takeFraction
      (n.fractionText ++ ((n.exponent.map Exponent.text).getD [] ++ rest))).2).2.length ≤
        rest.length := by
  have hfraction := h.fraction
  cases hn : n.fraction with
  | none =>
      simp only [fractionText, hn, Option.map_none, Option.getD_none, List.nil_append]
      exact length_rest_exponent_le h rest
  | some digits =>
      have hdigits : (digits ++ ((n.exponent.map Exponent.text).getD [] ++ rest)).dropWhile
          Text.isDigit = ((n.exponent.map Exponent.text).getD [] ++ rest).dropWhile Text.isDigit :=
        List.dropWhile_append_of_pos (hfraction digits hn)
      simp only [fractionText, hn, Option.map_some, Option.getD_some, List.cons_append, takeFraction,
        hdigits]
      exact Exponent.length_rest_take_dropWhile_append_le h.exponent rest

/-- Taking a numeral goes at least as far as any well-formed numeral at the start of the text. -/
theorem length_rest_take_append_le (h : n.WellFormed) (rest : List Char) :
    (take (n.text ++ rest)).2.length ≤ rest.length := by
  have hwhole : (n.text ++ rest).dropWhile Text.isDigit =
      (n.fractionText ++ ((n.exponent.map Exponent.text).getD [] ++ rest)).dropWhile
        Text.isDigit := by
    rw [text, List.append_assoc, List.append_assoc]
    exact List.dropWhile_append_of_pos h.whole
  unfold take
  simp only [hwhole]
  -- The digits end here unless the numeral does.
  cases hfraction : n.fraction with
  | some digits =>
      have hpoint : Text.isDigit '.' = false := by decide
      have hstop := length_rest_fraction_le h rest
      simp only [fractionText, hfraction, Option.map_some, Option.getD_some, List.cons_append]
        at hstop ⊢
      rwa [List.dropWhile_cons_of_neg (by simp [hpoint])]
  | none =>
      simp only [fractionText, hfraction, Option.map_none, Option.getD_none, List.nil_append]
      cases hexponent : n.exponent with
      | some e =>
          have hmark := Exponent.not_isDigit_of_mark (h.exponent e hexponent).mark
          have hstop := length_rest_exponent_le h rest
          simp only [hexponent, Option.map_some, Option.getD_some, Exponent.text, List.cons_append]
            at hstop ⊢
          rwa [List.dropWhile_cons_of_neg (by simp [hmark])]
      | none =>
          calc (Exponent.take (takeFraction (rest.dropWhile Text.isDigit)).2).2.length
            _ ≤ (takeFraction (rest.dropWhile Text.isDigit)).2.length := Exponent.length_rest_le _
            _ ≤ (rest.dropWhile Text.isDigit).length := length_rest_takeFraction_le _
            _ ≤ rest.length := length_dropWhile_le _ rest

/-- No well-formed numeral at the start of a text is longer than the one taken. -/
theorem length_text_le_length_take (h : n.WellFormed) {cs : List Char} (hstart : n.text <+: cs) :
    n.text.length ≤ (take cs).1.text.length := by
  obtain ⟨rest, rfl⟩ := hstart
  have hrest := length_rest_take_append_le h rest
  have hsplit := congrArg List.length (text_append_rest (n.text ++ rest))
  simp only [List.length_append] at hsplit
  omega

end Numeral

end Calculator
