/-!
# Fractions

Exact arithmetic on non-negative fractions. A number is printed or read by scaling its exact value
to a grid and rounding once, so nothing but the last step loses anything.
-/

set_option autoImplicit false

namespace Calculator

/-- The quotient of two natural numbers, rounded to the nearest natural number; a half goes to the
even neighbour. -/
def roundDiv (num den : Nat) : Nat :=
  let quotient := num / den
  let twice := 2 * (num % den)
  if twice < den then quotient
  else if den < twice then quotient + 1
  else quotient + quotient % 2

/-- A non-negative fraction. -/
structure Fraction where
  num : Nat
  den : Nat
  den_pos : 0 < den

namespace Fraction

/-- A natural number as a fraction. -/
def ofNat (n : Nat) : Fraction := ⟨n, 1, Nat.one_pos⟩

/-- A fraction times a power of a base; the exponent may be negative. -/
def scale (v : Fraction) (base : Nat) (base_pos : 0 < base) (exponent : Int) : Fraction where
  num := v.num * base.pow exponent.toNat
  den := v.den * base.pow (-exponent).toNat
  den_pos := Nat.mul_pos v.den_pos (Nat.pow_pos base_pos)

/-- A fraction times a power of two. -/
def mulTwoPow (v : Fraction) (exponent : Int) : Fraction := v.scale 2 (by decide) exponent

/-- A fraction times a power of ten. -/
def mulTenPow (v : Fraction) (exponent : Int) : Fraction := v.scale 10 (by decide) exponent

/-- The nearest natural number; a half goes to the even neighbour. -/
def round (v : Fraction) : Nat := roundDiv v.num v.den

/-- The greatest natural number that is not above the fraction. -/
def floor (v : Fraction) : Nat := v.num / v.den

/-- Whether the fraction is a natural number. -/
def isWhole (v : Fraction) : Bool := v.num % v.den == 0

/-- Whether one fraction is at most another. -/
def atMost (v w : Fraction) : Bool := v.num * w.den ≤ w.num * v.den

/-- The exponent of the greatest power of two that is not above a positive fraction. -/
def floorLog2 (v : Fraction) : Int :=
  let estimate : Int := (v.num.log2 : Int) - (v.den.log2 : Int)
  if (v.mulTwoPow (-estimate)).floor = 0 then estimate - 1 else estimate

/-- The exponent of the greatest power of ten that is not above a positive fraction. -/
def floorLog10 (v : Fraction) : Int :=
  let estimate : Int := ((Nat.toDigits 10 v.num).length : Int) - ((Nat.toDigits 10 v.den).length : Int)
  if (v.mulTenPow (-estimate)).floor = 0 then estimate - 1 else estimate

end Fraction

end Calculator
