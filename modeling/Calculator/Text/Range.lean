/-!
# Classes of characters given by ranges

A class of characters is a list of inclusive ranges of code points.
-/

set_option autoImplicit false

namespace Calculator.Text

/-- Whether a character lies in one of the inclusive ranges. -/
def inRanges (ranges : List (Nat × Nat)) (c : Char) : Bool :=
  ranges.any fun range => range.1 ≤ c.toNat && c.toNat ≤ range.2

end Calculator.Text
