/-!
# Padding

Columns of a table are padded on the right with blanks, numbers on the left with zeros.
-/

set_option autoImplicit false

namespace Calculator.Text

/-- A text made of one character. -/
def fill (n : Nat) (c : Char) : List Char := List.replicate n c

/-- A text of spaces. -/
def spaces (n : Nat) : String := String.ofList (fill n ' ')

/-- A text followed by as many spaces as it needs to be as wide as a column. -/
def padRight (width : Nat) (s : String) : String := s ++ spaces (width - s.length)

/-- A text behind as many zeros as it needs to have a given width. -/
def padZeros (width : Nat) (cs : List Char) : List Char := fill (width - cs.length) '0' ++ cs

/-- The decimal digits of a number. -/
def decimalDigits (n : Nat) : List Char := Nat.toDigits 10 n

/-- A text without the zeros at its end. -/
def trimZeros (cs : List Char) : List Char := (cs.reverse.dropWhile (· == '0')).reverse

end Calculator.Text
