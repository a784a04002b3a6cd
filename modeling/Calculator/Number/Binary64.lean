import Calculator.Number.Fraction

/-!
# Binary64 numbers

A number of the calculator is a binary64 word: a sign, eleven bits of exponent, fifty-two bits of
fraction. This module reads the exact value off a word and finds the word nearest to an exact value.
-/

set_option autoImplicit false

namespace Calculator

/-- What a binary64 word denotes. -/
inductive Datum where
  | finite (negative : Bool) (magnitude : Fraction)
  | infinite (negative : Bool)
  | nan

namespace Binary64

/-- The word of positive infinity; the words below it are the finite magnitudes in their order. -/
def infinityWord : Nat := 2047 * Nat.pow 2 52

/-- The magnitude of a finite word: an integer of at most fifty-three bits times a power of two. -/
def magnitude (word : Nat) : Fraction :=
  let field : Nat := word / Nat.pow 2 52 % Nat.pow 2 11
  let fraction : Nat := word % Nat.pow 2 52
  if field = 0 then (Fraction.ofNat fraction).mulTwoPow (-1074)
  else (Fraction.ofNat (Nat.pow 2 52 + fraction)).mulTwoPow ((field : Int) - 1075)

/-- What a number denotes, exactly. -/
def datum (x : Float) : Datum :=
  let word := x.toBits.toNat
  let negative := word / Nat.pow 2 63 % 2 == 1
  if word / Nat.pow 2 52 % Nat.pow 2 11 = 2047 then
    if word % Nat.pow 2 52 = 0 then .infinite negative else .nan
  else .finite negative (magnitude word)

/-- The word nearest to a fraction, a tie going to the even word. The exponent has no upper bound, so
the result is at least `infinityWord` exactly for a fraction that is too large for a finite word. -/
def nearestWord (v : Fraction) : Nat :=
  if v.num = 0 then 0
  else
    let exponent := max (v.floorLog2 - 52) (-1074)
    (exponent + 1074).toNat * Nat.pow 2 52 + (v.mulTwoPow (-exponent)).round

end Binary64

end Calculator
