import Calculator.Number.Shortest
import Calculator.Text.Pad

/-!
# Literals

The literal of a number identifies it: no two different numbers share one. Tables, outlines and
listings show numbers as literals.
-/

set_option autoImplicit false

namespace Calculator

namespace Number

/-- Digits with a point after the first, and an exponent of at least two digits with its sign. -/
def scientific (digits : List Char) (exponent : Int) : List Char :=
  let mantissa := match digits with
    | [] => []
    | [digit] => [digit]
    | digit :: rest => digit :: '.' :: rest
  let sign := if exponent < 0 then '-' else '+'
  mantissa ++ 'e' :: sign :: Text.padZeros 2 (Text.decimalDigits exponent.natAbs)

/-- Digits around a point, with a zero on a side that would stand empty; `point` is how many digits
stand before the point, and may be negative or more than there are digits. -/
def positional (digits : List Char) (point : Int) : List Char :=
  if point ≤ 0 then '0' :: '.' :: (Text.fill (-point).toNat '0' ++ digits)
  else
    let whole := digits.take point.toNat
    let fraction := digits.drop point.toNat
    whole ++ Text.fill (point.toNat - whole.length) '0' ++
      '.' :: (if fraction.isEmpty then ['0'] else fraction)

/-- The sign of a negative number. -/
def signText (negative : Bool) : String := if negative then "-" else ""

/-- The literal of a finite magnitude: positional from a ten-thousandth up to sixteen whole digits,
with an exponent beyond. -/
def magnitudeLiteral (word : Nat) : List Char :=
  if (Binary64.magnitude word).num = 0 then ['0', '.', '0']
  else
    let shortest := Binary64.shortestDecimal word
    let written := Text.decimalDigits shortest.coefficient
    let digits := Text.trimZeros written
    let point := (written.length : Int) + shortest.exponent
    if -4 < point ∧ point ≤ 16 then positional digits point
    else scientific digits (point - 1)

/-- The literal of a number. -/
def literal (x : Float) : String :=
  match Binary64.datum x with
  | .finite negative _ =>
    signText negative ++ String.ofList (magnitudeLiteral (x.toBits.toNat % Nat.pow 2 63))
  | .infinite negative => signText negative ++ "inf"
  | .nan => "nan"

end Number

end Calculator
