import Calculator.Number.Literal
import Calculator.Proofs.Token.Boundary
import Calculator.Proofs.Token.NumeralValue
import Mathlib.Data.List.DropRight

/-!
# Written digits

The digits that are written of a number are read as that number (`digitsValue_decimalDigits`), with or without
zeros in front. Zeros at the end can be left out where the place of the last digit is known: each of them is a
factor of ten (`digitsValue_append_eq_trimZeros`).
-/

set_option autoImplicit false

namespace Calculator.Text

/-! ## Digits of a number -/

/-- The value of an ASCII digit is its distance from zero. -/
theorem digitValue?_of_isDigit {c : Char} (h : c.isDigit = true) : digitValue? c = some (c.toNat - 48) := by
  have hrange : 48 ≤ c.toNat ∧ c.toNat ≤ 57 := by
    simpa [Char.isDigit, UInt32.le_iff_toNat_le] using h
  have hfound : zeroPoints.find? (fun first => first ≤ c.toNat && c.toNat < first + 10) = some 48 := by
    apply List.find?_cons_of_pos
    simp only [Bool.and_eq_true, decide_eq_true_eq]
    omega
  rw [digitValue?, hfound]
  rfl

/-- An ASCII digit is a digit. -/
theorem isDigit_of_isDigit {c : Char} (h : c.isDigit = true) : isDigit c = true := by
  rw [isDigit, digitValue?_of_isDigit h]
  rfl

/-- One more digit makes the value ten times as large and adds its own. -/
theorem digitsValue_concat (cs : List Char) (c : Char) :
    digitsValue (cs ++ [c]) = 10 * digitsValue cs + (digitValue? c).getD 0 := by
  rw [digitsValue, List.foldl_append]
  rfl

/-- One digit has its own value. -/
theorem digitsValue_singleton (c : Char) : digitsValue [c] = (digitValue? c).getD 0 := by
  rw [← List.nil_append [c], digitsValue_concat]
  exact Nat.zero_add _

/-- A number is written with ASCII digits. -/
theorem isDigit_of_mem_decimalDigits {n : Nat} {c : Char} (h : c ∈ decimalDigits n) : c.isDigit = true :=
  Nat.isDigit_of_mem_toDigits (by decide) (by decide) h

/-- The character of a digit has the value of the digit. -/
theorem digitValue?_digitChar {d : Nat} (h : d < 10) : digitValue? d.digitChar = some d := by
  have hdigit : d.digitChar.isDigit = true := by
    rw [Nat.isDigit_digitChar]
    exact decide_eq_true h
  rw [digitValue?_of_isDigit hdigit, Nat.toNat_digitChar_of_lt_ten h, Nat.add_sub_cancel_left]

/-- The digits of a number are read as the number. -/
theorem digitsValue_decimalDigits (n : Nat) : digitsValue (decimalDigits n) = n := by
  induction n using Nat.strongRecOn with
  | ind n ih =>
      unfold decimalDigits at ih ⊢
      rw [Nat.toDigits_eq_if (by decide)]
      split
      · next hsmall => rw [digitsValue_singleton, digitValue?_digitChar hsmall, Option.getD_some]
      · rw [digitsValue_concat, ih (n / 10) (by omega), digitValue?_digitChar (by omega), Option.getD_some]
        omega

/-- A positive number does not start with a zero. -/
theorem head?_decimalDigits_ne {n : Nat} (h : n ≠ 0) : (decimalDigits n).head? ≠ some '0' := by
  induction n using Nat.strongRecOn with
  | ind n ih =>
      unfold decimalDigits at ih ⊢
      rw [Nat.toDigits_eq_if (by decide)]
      split
      · next hsmall =>
        intro hzero
        have hvalue := digitValue?_digitChar hsmall
        rw [Option.some.inj hzero] at hvalue
        exact h (Option.some.inj hvalue).symm
      · rw [List.head?_append_of_ne_nil _ Nat.toDigits_ne_nil]
        exact ih (n / 10) (by omega) (by omega)

/-- A number that is not zero is written without a zero in front. -/
theorem exists_decimalDigits_eq_cons {n : Nat} (h : n ≠ 0) :
    ∃ first rest, decimalDigits n = first :: rest ∧ first ≠ '0' ∧ ∀ c ∈ first :: rest, c.isDigit = true := by
  obtain ⟨first, rest, hwritten⟩ : ∃ first rest, decimalDigits n = first :: rest :=
    List.exists_cons_of_ne_nil Nat.toDigits_ne_nil
  have hhead := head?_decimalDigits_ne h
  rw [hwritten] at hhead
  refine ⟨first, rest, hwritten, by simpa using hhead, ?_⟩
  rw [← hwritten]
  exact fun c => isDigit_of_mem_decimalDigits

/-! ## Zeros around the digits -/

/-- Zeros in front do not change the value of digits. -/
theorem digitsValue_fill_append (k : Nat) (cs : List Char) : digitsValue (fill k '0' ++ cs) = digitsValue cs := by
  have hzero : (digitValue? '0').getD 0 = 0 := by decide
  rw [digitsValue, List.foldl_append]
  congr 1
  induction k with
  | zero => rfl
  | succ k ih => rw [fill, List.replicate_succ, List.foldl_cons, hzero]; exact ih

/-- Padding with zeros does not change the value of digits. -/
theorem digitsValue_padZeros (width : Nat) (cs : List Char) : digitsValue (padZeros width cs) = digitsValue cs :=
  digitsValue_fill_append _ cs

/-- Padded digits are as many as the width asks for, or as there were. -/
theorem length_padZeros (width : Nat) (cs : List Char) : (padZeros width cs).length = max width cs.length := by
  simp only [padZeros, fill, List.length_append, List.length_replicate]
  omega

/-- A padded number is written with ASCII digits. -/
theorem isDigit_of_mem_padZeros {width n : Nat} {c : Char} (h : c ∈ padZeros width (decimalDigits n)) :
    c.isDigit = true := by
  rcases List.mem_append.mp h with h | h
  · rw [List.eq_of_mem_replicate h]
    decide
  · exact isDigit_of_mem_decimalDigits h

/-- A text is its trimmed form with zeros behind it. -/
theorem exists_zeros_behind (cs : List Char) : ∃ k, cs = trimZeros cs ++ fill k '0' := by
  refine ⟨(cs.rtakeWhile (· == '0')).length, ?_⟩
  have hzeros : cs.rtakeWhile (· == '0') = fill (cs.rtakeWhile (· == '0')).length '0' := by
    refine List.eq_replicate_of_mem fun c hc => ?_
    simpa using List.mem_rtakeWhile_imp hc
  rw [← hzeros]
  exact List.rdropWhile_append_rtakeWhile.symm

/-- Zeros are left out up to the last character that is none. -/
theorem trimZeros_append_cons {c : Char} (h : c ≠ '0') (cs ds : List Char) :
    trimZeros (cs ++ c :: ds) = cs ++ c :: trimZeros ds := by
  have hc : (c == '0') = false := beq_eq_false_iff_ne.mpr h
  have hstop := dropWhile_append_cons_of_neg (p := (· == '0')) hc ds.reverse cs.reverse
  unfold trimZeros
  rw [List.reverse_append, List.reverse_cons, List.append_assoc, List.singleton_append, hstop]
  simp

/-- The characters that are left of trimmed digits were there before. -/
theorem mem_of_mem_trimZeros {cs : List Char} {c : Char} (h : c ∈ trimZeros cs) : c ∈ cs :=
  (List.rdropWhile_prefix (· == '0') cs).subset h

/-- Trimmed digits do not end with a zero. -/
theorem getLast?_trimZeros_ne (cs : List Char) : (trimZeros cs).getLast? ≠ some '0' := by
  intro hlast
  have htrim : trimZeros cs = cs.rdropWhile (· == '0') := rfl
  rw [htrim] at hlast
  have hne : cs.rdropWhile (· == '0') ≠ [] := List.ne_nil_of_mem (List.mem_of_getLast? hlast)
  have hstop := List.rdropWhile_last_not (· == '0') cs hne
  rw [List.getLast_of_getLast?_eq_some hlast] at hstop
  exact hstop rfl

/-- Each zero at the end is a factor of ten. -/
theorem digitsValue_append_fill (cs : List Char) (k : Nat) :
    digitsValue (cs ++ fill k '0') = digitsValue cs * 10 ^ k := by
  have hlength : (fill k '0').length = k := List.length_replicate
  have hzeros : digitsValue (fill k '0') = 0 := by
    have hfill := digitsValue_fill_append k []
    rwa [List.append_nil] at hfill
  rw [digitsValue_append, hzeros, hlength, Nat.zero_add, Nat.mul_comm]

/-- Each zero that is trimmed at the end was a factor of ten. -/
theorem digitsValue_append_eq_trimZeros (cs ds : List Char) : ∃ k, ds.length = (trimZeros ds).length + k ∧
    digitsValue (cs ++ ds) = digitsValue (cs ++ trimZeros ds) * 10 ^ k := by
  obtain ⟨k, hk⟩ := exists_zeros_behind ds
  refine ⟨k, ?_, ?_⟩
  · conv_lhs => rw [hk]
    rw [List.length_append, fill, List.length_replicate]
  · conv_lhs => rw [hk]
    rw [← List.append_assoc, digitsValue_append_fill]

end Calculator.Text
