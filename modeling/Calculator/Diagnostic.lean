import Calculator.Fault
import Calculator.Place
import Calculator.Text.Line
import Calculator.Text.Pad

/-!
# Diagnostics

A diagnostic shows a fault to the user: the message, the line of the source that holds the culprit,
and a caret under it. How the parts that stand out are painted is left open; without colour they are
left as they are.
-/

set_option autoImplicit false

namespace Calculator

/-- A fault with the text it was met in and the number of the first line of that text. -/
structure Report where
  fault : Fault
  source : String
  startLine : Int
deriving DecidableEq, Repr

/-- The first line of a diagnostic: the message and the stage. -/
def Fault.headline (paint : String → String) (f : Fault) : String :=
  paint "error: " ++ f.cause.message ++ " [" ++ f.cause.stage.name ++ "]"

namespace Report

/-- The number of the line that holds the culprit; without a culprit, of the first line. -/
def line (r : Report) : Int :=
  match r.fault.pos with
  | none => r.startLine
  | some pos => r.startLine + pos.line - 1

/-- The physical lines of the source; there is at least one. -/
def sourceLines (r : Report) : List (List Char) :=
  match Text.physicalLines r.source.toList with
  | [] => [[]]
  | lines => lines

/-- The line of the source that a diagnostic shows: the one of the culprit, or the last one if the
source has fewer lines, or the first one if there is no culprit. -/
def excerpt? (r : Report) : Option (List Char) :=
  let line : Int := (r.fault.pos.map (·.line)).getD 1
  atPlace? r.sourceLines (min line (r.sourceLines.length : Int) - 1)

/-- The caret under the culprit, behind a gutter as wide as the number of the line. -/
def caretLine (paint : String → String) (width : Nat) (pos : Position) : String :=
  " " ++ Text.spaces width ++ " | " ++ Text.spaces (pos.column - 1).toNat ++ paint "^"

/-- The lines of a diagnostic that shows an excerpt. -/
def renderLines (paint : String → String) (r : Report) (excerpt : List Char) : List String :=
  let number := toString r.line
  r.fault.headline paint :: (" " ++ number ++ " | " ++ String.ofList excerpt) ::
    (r.fault.pos.map (caretLine paint number.length)).toList

/-- The whole diagnostic. Without a source it is the headline alone, and there is none if the culprit
lies before the source. -/
def render? (paint : String → String) (r : Report) : Option String :=
  if r.source = "" then some (r.fault.headline paint)
  else r.excerpt?.map fun excerpt => "\n".intercalate (r.renderLines paint excerpt)

/-- The diagnostic as it is printed: in full, or else the headline. -/
def render (paint : String → String) (r : Report) : String :=
  (r.render? paint).getD (r.fault.headline paint)

end Report

end Calculator
