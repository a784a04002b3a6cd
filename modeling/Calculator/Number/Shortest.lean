import Calculator.Number.Decimal

/-!
# Shortest decimals

The shortest decimal of a number has the fewest digits among those that read back as that number.
Among equally short ones it is the nearest, and the even one of two that are equally near. Up to
seventeen digits are tried. Should none of them read back, the exact decimal stands in, so that every
shortest decimal reads back by construction.
-/

set_option autoImplicit false

namespace Calculator

namespace Fraction

/-- The nearest decimal that has a given number of digits; a half goes to the even neighbour. -/
def nearestDecimal (v : Fraction) (digits : Nat) : Decimal :=
  let exponent := v.floorLog10 + 1 - digits
  ⟨(v.mulTenPow (-exponent)).round, exponent⟩

/-- The two decimals of a given number of digits that enclose a fraction, the nearest first. -/
def neighbours (v : Fraction) (digits : Nat) : List Decimal :=
  let nearest := v.nearestDecimal digits
  let below := (v.mulTenPow (-nearest.exponent)).floor
  let other := if nearest.coefficient = below then below + 1 else below
  [nearest, ⟨other, nearest.exponent⟩]

end Fraction

namespace Binary64

/-- The decimal equal to the magnitude of a finite word. Its denominator is a power of two, so as many
factors of five make it a power of ten. -/
def exactDecimal (word : Nat) : Decimal :=
  let places := (magnitude word).den.log2
  ⟨(magnitude word).num * Nat.pow 5 places, -(places : Int)⟩

/-- Whether a decimal reads back as a word. -/
def readsBack (word : Nat) (d : Decimal) : Bool := nearestWord d.value == word

/-- The shortest decimal of a finite word. -/
def shortestDecimal (word : Nat) : Decimal :=
  let hit? := (List.range 17).findSome? fun k =>
    ((magnitude word).neighbours (k + 1)).find? (readsBack word)
  hit?.getD (exactDecimal word)

end Binary64

end Calculator
