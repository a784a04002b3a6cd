import Calculator.Diagnostic
import Calculator.Expr.Parse
import Calculator.Number.Display
import Calculator.Program.Compile
import Calculator.Program.Execute
import Calculator.Token.Scan

/-!
# Evaluation

The value of a text is what the program of its expression leaves on the stack. Evaluation never
fails: it returns the value, or the fault of the first stage that could not go on.
-/

set_option autoImplicit false

namespace Calculator

/-- The value of a text, or the fault of the first stage that could not go on. `room` is how many calls
fit, the call for the text counted; the same goes for all that evaluates below. -/
def textValue (room : Nat) (text : String) : Except Fault Float :=
  (Token.scan text).bind fun tokens =>
    (Expr.parse (room - 1) Parser.defaultLimit tokens).bind fun e =>
      e.compile.bind execute

/-- A text, the number of its first line, and what came of it. -/
structure Evaluation where
  source : String
  line : Int
  outcome : Except Fault Float

namespace Evaluation

/-- The report of a fault that this evaluation met. -/
def report (e : Evaluation) (fault : Fault) : Report := ⟨fault, e.source, e.line⟩

/-- What came of an evaluation, as it is shown: the value, or the diagnostic of the fault. -/
def text (paint : String → String) (e : Evaluation) : String :=
  match e.outcome with
  | .ok value => "= " ++ Number.display value
  | .error fault => (e.report fault).render paint

end Evaluation

/-- Evaluates a text that starts on a line. -/
def evaluate (room : Nat) (text : String) (line : Int) : Evaluation :=
  ⟨text, line, textValue (room - 1) text⟩

end Calculator
