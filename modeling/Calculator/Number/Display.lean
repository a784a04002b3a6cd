import Calculator.Number.Literal

/-!
# Displayed numbers

A result is displayed for reading: whole numbers without a point, others with at most fifteen places
and no zeros at the end, and very large or very small ones with fifteen digits and an exponent.
-/

set_option autoImplicit false

namespace Calculator

namespace Number

/-- A magnitude with a fixed number of places. -/
def fixedMagnitude (places : Nat) (v : Fraction) : List Char :=
  let digits := Text.padZeros (places + 1) (Text.decimalDigits (v.mulTenPow places).round)
  let whole := digits.length - places
  digits.take whole ++ '.' :: digits.drop whole

/-- A number with a fixed number of places. -/
def fixed (places : Nat) (x : Float) : String :=
  match Binary64.datum x with
  | .finite negative v => signText negative ++ String.ofList (fixedMagnitude places v)
  | .infinite negative => signText negative ++ "inf"
  | .nan => "nan"

/-- A text without the zeros at its end, and without the point that they leave at the end. -/
def trimPlaces (cs : List Char) : List Char :=
  match (Text.trimZeros cs).reverse with
  | '.' :: rest => rest.reverse
  | _ => Text.trimZeros cs

/-- A positive magnitude with fifteen significant digits, less the zeros at their end, and an
exponent. -/
def scientificMagnitude (v : Fraction) : List Char :=
  let nearest := v.nearestDecimal 15
  let written := Text.decimalDigits nearest.coefficient
  scientific (Text.trimZeros written) (nearest.exponent + (written.length : Int) - 1)

/-- The least magnitude that is displayed without an exponent: the binary64 number nearest to a
millionth. -/
def leastPositional : Fraction := (Fraction.ofNat 4722366482869645).mulTwoPow (-72)

/-- The first magnitude that is displayed with an exponent for being large. -/
def firstLarge : Fraction := Fraction.ofNat (Nat.pow 10 16)

/-- A finite magnitude as it is displayed. -/
def displayMagnitude (v : Fraction) : List Char :=
  if v.isWhole && !firstLarge.atMost v then Text.decimalDigits v.floor
  else if leastPositional.atMost v && !firstLarge.atMost v then trimPlaces (fixedMagnitude 15 v)
  else scientificMagnitude v

/-- A number as it is displayed; zero has no sign. -/
def display (x : Float) : String :=
  match Binary64.datum x with
  | .finite negative v =>
    signText (negative && v.num != 0) ++ String.ofList (displayMagnitude v)
  | .infinite negative => signText negative ++ "inf"
  | .nan => "nan"

end Number

end Calculator
