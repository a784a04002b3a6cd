/-!
# Physical lines

A text is cut into lines at every line break. A break ends a line, so a break at the very end opens
no further, empty line. A carriage return followed by a newline is one break.
-/

set_option autoImplicit false

namespace Calculator.Text

/-- The characters that end a physical line. -/
def isLineBreak (c : Char) : Bool :=
  c == '\n' || c == '\r' || c == '\x0b' || c == '\x0c' || c == '\x1c' || c == '\x1d' ||
    c == '\x1e' || c == '\u0085' || c == '\u2028' || c == '\u2029'

/-- Every carriage return, alone or with the newline after it, becomes one newline. -/
def unifyNewlines : List Char → List Char
  | [] => []
  | '\r' :: '\n' :: cs => '\n' :: unifyNewlines cs
  | c :: cs => (if c = '\r' then '\n' else c) :: unifyNewlines cs

/-- The lines that the breaking characters end, without those characters. -/
def linesBy (isBreak : Char → Bool) : List Char → List (List Char)
  | [] => []
  | c :: cs =>
    if isBreak c then
      [] :: linesBy isBreak cs
    else
      match linesBy isBreak cs with
      | [] => [[c]]
      | line :: lines => (c :: line) :: lines

/-- The physical lines of a text, cut at every line break. -/
def physicalLines (cs : List Char) : List (List Char) := linesBy isLineBreak (unifyNewlines cs)

/-- The lines of a text as a reader delivers them one by one, cut at newlines only once carriage
returns are unified with them. -/
def inputLines (cs : List Char) : List (List Char) := linesBy (· == '\n') (unifyNewlines cs)

end Calculator.Text
