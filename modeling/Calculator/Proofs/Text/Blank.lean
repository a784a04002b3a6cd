import Calculator.Text.Blank
import Mathlib.Data.List.DropRight

/-!
# Trimming

Trimming takes away the blanks around a text and nothing else, so what is left neither starts nor ends
with a blank, and blanks put around a text do not show once it is trimmed.
-/

set_option autoImplicit false

namespace Calculator.Text

/-- A text of blanks only. -/
def Blank (cs : List Char) : Prop := ∀ c ∈ cs, isBlank c = true

/-- A text is its trimmed form with blanks around it. -/
theorem exists_blanks_around (cs : List Char) :
    ∃ before after, Blank before ∧ Blank after ∧ cs = before ++ trim cs ++ after := by
  have hleft : cs.takeWhile isBlank ++ trimLeft cs = cs := List.takeWhile_append_dropWhile
  have hright : trim cs ++ (trimLeft cs).rtakeWhile isBlank = trimLeft cs :=
    List.rdropWhile_append_rtakeWhile
  refine ⟨cs.takeWhile isBlank, (trimLeft cs).rtakeWhile isBlank, ?_, ?_, ?_⟩
  · intro c hc
    exact List.mem_takeWhile_imp hc
  · intro c hc
    exact List.mem_rtakeWhile_imp hc
  · rw [List.append_assoc, hright, hleft]

/-- The characters of a trimmed text are characters of the text. -/
theorem mem_of_mem_trim {c : Char} {cs : List Char} (h : c ∈ trim cs) : c ∈ cs := by
  obtain ⟨before, after, -, -, hcs⟩ := exists_blanks_around cs
  rw [hcs]
  simp [h]

/-- Blanks in front of a text are trimmed. -/
theorem trim_blank_append {before : List Char} (h : Blank before) (cs : List Char) :
    trim (before ++ cs) = trim cs := by
  have hleft : trimLeft (before ++ cs) = trimLeft cs := List.dropWhile_append_of_pos h
  rw [trim, hleft, trim]

/-- Blanks behind a text are trimmed on the right. -/
theorem trimRight_append_blank (cs : List Char) {after : List Char} (h : Blank after) :
    trimRight (cs ++ after) = trimRight cs := by
  have hreverse : ∀ c ∈ after.reverse, isBlank c = true := fun c hc => h c (List.mem_reverse.mp hc)
  unfold trimRight
  rw [List.reverse_append, List.dropWhile_append_of_pos hreverse]

/-- Nothing is left of a text exactly if it is blank. -/
theorem trim_eq_nil_iff {cs : List Char} : trim cs = [] ↔ Blank cs := by
  constructor
  · intro h c hc
    obtain ⟨before, after, hbefore, hafter, hcs⟩ := exists_blanks_around cs
    rw [h, List.append_nil] at hcs
    rw [hcs] at hc
    rcases List.mem_append.mp hc with hc | hc
    · exact hbefore c hc
    · exact hafter c hc
  · intro h
    have hleft : trimLeft cs = [] := List.dropWhile_eq_nil_iff.mpr h
    rw [trim, hleft]
    rfl

/-- Blanks behind a text are trimmed. -/
theorem trim_append_blank (cs : List Char) {after : List Char} (h : Blank after) :
    trim (cs ++ after) = trim cs := by
  by_cases hcs : Blank cs
  · have hboth : Blank (cs ++ after) := by
      intro c hc
      rcases List.mem_append.mp hc with hc | hc
      · exact hcs c hc
      · exact h c hc
    rw [trim_eq_nil_iff.mpr hcs, trim_eq_nil_iff.mpr hboth]
  · have hleft : trimLeft (cs ++ after) = trimLeft cs ++ after := by
      unfold trimLeft
      rw [List.dropWhile_append, if_neg]
      simpa [Blank] using hcs
    rw [trim, hleft, trimRight_append_blank _ h, trim]

/-- A trimmed text has nothing more to trim. -/
theorem trim_trim (cs : List Char) : trim (trim cs) = trim cs := by
  obtain ⟨before, after, hbefore, hafter, hcs⟩ := exists_blanks_around cs
  have hagain : trim (before ++ trim cs ++ after) = trim (trim cs) := by
    rw [trim_append_blank _ hafter, trim_blank_append hbefore]
  rw [← hagain, ← hcs]

section Trimmed

variable {p : List Char} (h : trim p = p)
include h

/-- A trimmed text has no blanks on the left. -/
theorem trimLeft_eq_of_trim_eq : trimLeft p = p := by
  have hprefix : trim p <+: trimLeft p := List.rdropWhile_prefix isBlank _
  have hsuffix : trimLeft p <:+ p := List.dropWhile_suffix isBlank
  rw [h] at hprefix
  exact hsuffix.eq_of_length_le hprefix.length_le

/-- A trimmed text has no blanks on the right. -/
theorem trimRight_eq_of_trim_eq : trimRight p = p := by
  have htrim : trimRight (trimLeft p) = p := h
  rwa [trimLeft_eq_of_trim_eq h] at htrim

/-- Behind a trimmed text, nothing is trimmed from the left. -/
theorem trimLeft_append_of_trim_eq (hne : p ≠ []) (cs : List Char) :
    trimLeft (p ++ cs) = p ++ cs := by
  have hleft : p.dropWhile isBlank = p := trimLeft_eq_of_trim_eq h
  rw [trimLeft, List.dropWhile_append, hleft, if_neg]
  simpa using hne

/-- Before a trimmed text, nothing is trimmed from the right. -/
theorem trimRight_append_of_trim_eq (hne : p ≠ []) (cs : List Char) :
    trimRight (cs ++ p) = cs ++ p := by
  have hright : p.reverse.dropWhile isBlank = p.reverse := by
    apply List.reverse_injective
    rw [List.reverse_reverse]
    exact trimRight_eq_of_trim_eq h
  rw [trimRight, List.reverse_append, List.dropWhile_append, hright, if_neg]
  · simp
  · simpa using hne

end Trimmed

end Calculator.Text
