import Calculator.Evaluation
import Calculator.Text.Blank
import Calculator.Text.Line

/-!
# Logical lines

A script is a text of statements, one on each line. A line whose code ends with a backslash goes on
with the next line: the backslash and the comment are dropped and the pieces are joined by a space.
Lines without code are skipped.
-/

set_option autoImplicit false

namespace Calculator

/-- The code of a line: what stands before the first semicolon, without blanks around it. -/
def codePart (cs : List Char) : List Char := Text.trim (cs.takeWhile (· != ';'))

/-- Whether a line's code ends with a backslash. -/
def continues (cs : List Char) : Bool := (codePart cs).getLast? == some '\\'

/-- The piece that a line contributes if it goes on with the next: its code without the backslash. -/
def continuedPiece (cs : List Char) : List Char := Text.trim (codePart cs).dropLast

/-- The pieces that are not empty, with a space between them. -/
def joinPieces (pieces : List (List Char)) : List Char :=
  [' '].intercalate (pieces.filter (!·.isEmpty))

/-- A statement of a script, and the number of its first physical line. -/
structure LogicalLine where
  text : String
  line : Nat
deriving DecidableEq, Repr

namespace LogicalLine

/-- The statement that some pieces form, if any: `admits` says which texts are statements. -/
def ofPieces (admits : List Char → Bool) (pieces : List (List Char)) (line : Nat) :
    List LogicalLine :=
  let text := joinPieces pieces
  if admits text then [⟨String.ofList text, line⟩] else []

/-- The logical lines of some physical lines. `number` is the number of the first of them, `pieces`
are those of a statement that goes on with it, and `first` is the number of the first line of that
statement. -/
def collect (number : Nat) (pieces : List (List Char)) (first : Nat) :
    List (List Char) → List LogicalLine
  | [] => if pieces.isEmpty then [] else ofPieces (!·.isEmpty) pieces first
  | raw :: rest =>
    let first := if pieces.isEmpty then number else first
    if continues raw then collect (number + 1) (pieces ++ [continuedPiece raw]) first rest
    else
      ofPieces (fun text => !(codePart text).isEmpty) (pieces ++ [Text.trim raw]) first ++
        collect (number + 1) [] first rest

end LogicalLine

/-- The logical lines of a script. -/
def logicalLines (text : String) : List LogicalLine :=
  LogicalLine.collect 1 [] 0 (Text.physicalLines text.toList)

/-- Evaluates every logical line of a script. The walk over the lines is a call of its own. -/
def evaluateLines (room : Nat) (text : String) : List Evaluation :=
  (logicalLines text).map fun line => evaluate (room - 2) line.text line.line

end Calculator
