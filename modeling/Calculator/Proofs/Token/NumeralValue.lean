import Calculator.Proofs.Number.Overflow
import Calculator.Token.Numeral
import Mathlib.Data.List.Induction
import Mathlib.Data.Nat.Digits.Defs
import Mathlib.Tactic.FieldSimp
import Mathlib.Tactic.Ring

/-!
# What numerals denote

A numeral denotes a rational number: the digits before the point, the digits after it and the power of ten
that the exponent gives, each in the positional system (`Numeral.exactValue`). The decimal that is made of a
numeral, with all digits in one coefficient, denotes the same (`Numeral.toRat_decimal`). So the numerals without
a value are those whose exponent has no digit, and those from the bound on where numbers become infinite
(`Numeral.value?_eq_none_iff`).
-/

set_option autoImplicit false

namespace Calculator

namespace Text

/-- The values of the digits of a text, from the last one on. -/
def digits (cs : List Char) : List Nat := cs.reverse.map fun c => (digitValue? c).getD 0

/-- There are as many digits as characters. -/
theorem length_digits (cs : List Char) : (digits cs).length = cs.length := by
  rw [digits, List.length_map, List.length_reverse]

/-- The digits of the second part come first, as they are of lower rank. -/
theorem digits_append (cs cs' : List Char) : digits (cs ++ cs') = digits cs' ++ digits cs := by
  rw [digits, List.reverse_append, List.map_append]
  rfl

/-- The value of digits is that of the library. -/
theorem digitsValue_eq_ofDigits (cs : List Char) : digitsValue cs = Nat.ofDigits 10 (digits cs) := by
  induction cs using List.reverseRecOn with
  | nil => rfl
  | append_singleton cs c ih =>
      have hlast : digits (cs ++ [c]) = (digitValue? c).getD 0 :: digits cs := digits_append cs [c]
      rw [hlast, Nat.ofDigits_cons, ← ih, digitsValue, List.foldl_append]
      exact Nat.add_comm _ _

/-- Digits behind others scale these by a power of ten. -/
theorem digitsValue_append (cs cs' : List Char) :
    digitsValue (cs ++ cs') = digitsValue cs' + 10 ^ cs'.length * digitsValue cs := by
  rw [digitsValue_eq_ofDigits, digits_append, Nat.ofDigits_append, length_digits,
    digitsValue_eq_ofDigits, digitsValue_eq_ofDigits]

end Text

namespace Numeral

/-- The rational number that a numeral denotes. -/
def exactValue (n : Numeral) : ℚ :=
  let after := Text.digits (n.fraction.getD [])
  let exponent := (n.exponent.map Exponent.value).getD 0
  ((Nat.ofDigits 10 (Text.digits n.whole) : Nat) + (Nat.ofDigits 10 after : Nat) / 10 ^ after.length) *
    10 ^ exponent

/-- Nothing can be read from a numeral: its exponent has a mark and no digits, or what it denotes is rounded to
infinity. -/
def Unreadable (n : Numeral) : Prop :=
  (∃ e, n.exponent = some e ∧ e.digits = []) ∨ Binary64.overflowBound ≤ n.exactValue

variable (n : Numeral)

/-- The digits after the point count in the coefficient, and the exponent of the decimal makes up for it. -/
theorem toRat_decimal : n.decimal.toRat = n.exactValue := by
  have hten : (10 : ℚ) ≠ 0 := by norm_num
  simp only [Decimal.toRat, decimal, exactValue, Text.digitsValue_append, Text.length_digits,
    ← Text.digitsValue_eq_ofDigits]
  rw [zpow_sub₀ hten, zpow_natCast]
  push_cast
  field_simp
  ring

/-- A numeral is incomplete exactly if it has an exponent without digits. -/
theorem isComplete_eq_false_iff : n.isComplete = false ↔ ∃ e, n.exponent = some e ∧ e.digits = [] := by
  cases hexponent : n.exponent <;> simp [isComplete, hexponent]

/-- A numeral has no value exactly if its exponent lacks digits or it is rounded to infinity. -/
theorem value?_eq_none_iff : n.value? = none ↔ n.Unreadable := by
  rw [value?, Unreadable, ← isComplete_eq_false_iff, ← toRat_decimal, ← Decimal.toFloat?_eq_none_iff]
  cases n.isComplete <;> simp

end Numeral

end Calculator
