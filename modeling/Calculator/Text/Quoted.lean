import Calculator.Text.Pad
import Calculator.Text.Printable

/-!
# Quoted texts

A message that names a text as data shows it in quotes, on one line and without characters that
cannot be seen.
-/

set_option autoImplicit false

namespace Calculator.Text

/-- The lowercase hexadecimal digits of a number, behind zeros up to a given width. -/
def hexDigits (width n : Nat) : List Char := padZeros width (Nat.toDigits 16 n)

/-- The quote around a text: double if the text holds a single quote and no double quote, single
otherwise. -/
def quoteFor (cs : List Char) : Char :=
  if cs.contains '\x27' && !cs.contains '"' then '"' else '\x27'

/-- One character inside quotes. The quote itself, the backslash, and the characters that cannot be
seen are written as escapes, the latter by the shortest of the three hexadecimal forms that fits. -/
def escapeChar (quote c : Char) : List Char :=
  if c = quote || c = '\\' then ['\\', c]
  else if c = '\n' then ['\\', 'n']
  else if c = '\r' then ['\\', 'r']
  else if c = '\t' then ['\\', 't']
  else if isPrintable c then [c]
  else if c.toNat < 0x100 then '\\' :: 'x' :: hexDigits 2 c.toNat
  else if c.toNat < 0x10000 then '\\' :: 'u' :: hexDigits 4 c.toNat
  else '\\' :: 'U' :: hexDigits 8 c.toNat

/-- A text in quotes. -/
def quoted (s : String) : String :=
  let quote := quoteFor s.toList
  String.ofList (quote :: s.toList.flatMap (escapeChar quote) ++ [quote])

end Calculator.Text
