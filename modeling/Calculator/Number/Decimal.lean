import Calculator.Number.Binary64

/-!
# Decimals

A decimal is a whole number times a power of ten. Reading one rounds its exact value once, to the
nearest binary64 number.
-/

set_option autoImplicit false

namespace Calculator

/-- A whole number times a power of ten. -/
structure Decimal where
  coefficient : Nat
  exponent : Int
deriving DecidableEq, Repr

namespace Decimal

/-- The exact value of a decimal. -/
def value (d : Decimal) : Fraction := (Fraction.ofNat d.coefficient).mulTenPow d.exponent

/-- The word of the binary64 number nearest to a decimal. An exponent that settles the matter alone
is decided before any power is formed: a coefficient of at least one with an exponent above 309 is
too large for a finite word, and one whose exponent falls short of its bit length by more than 330
is less than half of the least positive number. -/
def nearestWord (d : Decimal) : Nat :=
  if d.coefficient = 0 then 0
  else if 309 < d.exponent then Binary64.infinityWord
  else if d.exponent + (d.coefficient.log2 : Int) < -330 then 0
  else Binary64.nearestWord d.value

/-- The binary64 number nearest to a decimal, unless that is infinite. -/
def toFloat? (d : Decimal) : Option Float :=
  if d.nearestWord < Binary64.infinityWord then
    some (Float.ofBits (UInt64.ofNat d.nearestWord))
  else none

end Decimal

end Calculator
