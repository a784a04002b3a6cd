import Calculator.Number.Decimal
import Calculator.Text.Digit

/-!
# Numerals

A numeral is a run of digits, then perhaps a point with the digits after it, then perhaps an
exponent: its mark, a sign, digits. Only the first run has to hold a digit for the characters to be
taken; an exponent without digits makes the numeral invalid.
-/

set_option autoImplicit false

namespace Calculator

/-- The exponent of a numeral. -/
structure Exponent where
  mark : Char
  sign : Option Char
  digits : List Char
deriving DecidableEq, Repr

/-- The parts of a numeral as they are written. -/
structure Numeral where
  whole : List Char
  fraction : Option (List Char)
  exponent : Option Exponent
deriving DecidableEq, Repr

namespace Exponent

/-- The characters of an exponent. -/
def text (e : Exponent) : List Char := e.mark :: (e.sign.toList ++ e.digits)

/-- The number that an exponent denotes. -/
def value (e : Exponent) : Int :=
  if e.sign = some '-' then -(Text.digitsValue e.digits : Int) else Text.digitsValue e.digits

/-- The longest exponent at the start of a text, and the rest of the text. -/
def take : List Char → Option Exponent × List Char
  | [] => (none, [])
  | mark :: rest =>
    if mark = 'e' ∨ mark = 'E' then
      match rest with
      | [] => (some ⟨mark, none, []⟩, [])
      | sign :: digits =>
        if sign = '+' ∨ sign = '-' then
          (some ⟨mark, some sign, digits.takeWhile Text.isDigit⟩, digits.dropWhile Text.isDigit)
        else (some ⟨mark, none, rest.takeWhile Text.isDigit⟩, rest.dropWhile Text.isDigit)
    else (none, mark :: rest)

/-- The numeral that is taken off and what is left make up the text. -/
theorem text_append_rest (cs : List Char) :
    ((take cs).1.map text).getD [] ++ (take cs).2 = cs := by
  unfold take
  split
  · rfl
  · split
    · split
      · rfl
      · split <;> simp [text, List.takeWhile_append_dropWhile]
    · rfl

end Exponent

namespace Numeral

/-- The longest fraction at the start of a text, and the rest of the text. -/
def takeFraction : List Char → Option (List Char) × List Char
  | '.' :: rest => (some (rest.takeWhile Text.isDigit), rest.dropWhile Text.isDigit)
  | cs => (none, cs)

/-- The longest numeral at the start of a text, and the rest of the text. -/
def take (cs : List Char) : Numeral × List Char :=
  let afterWhole := cs.dropWhile Text.isDigit
  let fraction := takeFraction afterWhole
  let exponent := Exponent.take fraction.2
  (⟨cs.takeWhile Text.isDigit, fraction.1, exponent.1⟩, exponent.2)

/-- The point and the digits after it. -/
def fractionText (n : Numeral) : List Char := (n.fraction.map ('.' :: ·)).getD []

/-- The characters of a numeral. -/
def text (n : Numeral) : List Char :=
  n.whole ++ n.fractionText ++ (n.exponent.map Exponent.text).getD []

/-- The decimal that a numeral denotes. -/
def decimal (n : Numeral) : Decimal where
  coefficient := Text.digitsValue (n.whole ++ n.fraction.getD [])
  exponent := (n.exponent.map Exponent.value).getD 0 - (n.fraction.getD []).length

/-- Whether the exponent, if there is one, has a digit. -/
def isComplete (n : Numeral) : Bool := n.exponent.all fun e => !e.digits.isEmpty

/-- The number nearest to what a numeral denotes. An incomplete numeral denotes nothing, and one that
is too large for a finite number has none. -/
def value? (n : Numeral) : Option Float := if n.isComplete then n.decimal.toFloat? else none

/-- The fraction that is taken off and what is left make up the text. -/
theorem takeFraction_append (cs : List Char) :
    ((takeFraction cs).1.map ('.' :: ·)).getD [] ++ (takeFraction cs).2 = cs := by
  unfold takeFraction
  split
  · simp [List.takeWhile_append_dropWhile]
  · rfl

/-- Taking a numeral loses no character. -/
theorem text_append_rest (cs : List Char) : (take cs).1.text ++ (take cs).2 = cs := by
  simp only [take, text, fractionText, List.append_assoc]
  rw [Exponent.text_append_rest, takeFraction_append, List.takeWhile_append_dropWhile]

/-- A text that starts with a digit is longer than what a numeral leaves of it. -/
theorem rest_length_lt {c : Char} (h : Text.isDigit c = true) (cs : List Char) :
    (take (c :: cs)).2.length < (c :: cs).length := by
  have hsplit := congrArg List.length (text_append_rest (c :: cs))
  have hwhole : 0 < (take (c :: cs)).1.text.length := by
    simp [take, text, h]
  simp only [List.length_append] at hsplit
  omega

end Numeral

end Calculator
