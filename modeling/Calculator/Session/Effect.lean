import Calculator.Abort
import Calculator.Event
import Calculator.FileTree
import Calculator.Number.Display
import Calculator.Session

/-!
# Effects of a session

The events that carry out an effect. Only saving touches files, and only the benchmark looks at the
clock. Evaluating takes calls, for which there is room on top of those that have led from the line to
the effect.
-/

set_option autoImplicit false

namespace Calculator

namespace Effect

/-- The room that is left for an effect of a line, out of that for taking the line: two calls lead to
the effect, and one more if the line is empty. -/
def roomAfter (room : Nat) (line : String) : Nat :=
  if (Text.trim line.toList).isEmpty then room - 3 else room - 2

/-- The events of evaluating a statement and printing its result. -/
def evaluationEvents (room : Nat) (paint : String → String) (statement : String) : List Event :=
  Event.ofEvaluation (room - 1) statement ++
    [.out ((evaluate (room - 1) statement 1).text paint ++ "\n")]

/-- The expression that the benchmark evaluates. -/
def benchmarkText : String :=
  "1 + 2 * (3 - 4) / -5 + (6 * 7) - 8 / 9 + 10 * (11 + 12) - (13 * 14) / 15 + 16 " ++
  "- 17 * 18 / (19 + 20) - 21 + 22 * 23 / 24 - 25 + 26 * (27 - 28) / 29 + 30"

/-- How often the benchmark evaluates it. -/
def benchmarkRounds : Nat := 1000

/-- The report of the benchmark after a time in seconds. -/
def benchmarkReport (elapsed : Float) : String :=
  "Benchmarking " ++ benchmarkText ++ ":\n" ++
  "  Iterations: " ++ toString benchmarkRounds ++ "\n" ++
  "  Total time: " ++ Number.fixed 6 elapsed ++ "s\n" ++
  "  Average time per evaluation: " ++
    Number.fixed 2 (elapsed / Float.ofNat benchmarkRounds * 1e6) ++ "us\n"

/-- The events of the benchmark. -/
def benchmarkEvents (room : Nat) (elapsed : Float) : List Event :=
  (List.replicate benchmarkRounds (Event.ofEvaluation (room - 2) benchmarkText)).flatten ++
    [.out (benchmarkReport elapsed)]

/-- The event that tells how saving went. -/
def saveEvent (path : String) : Option FileError → Event
  | none => .out ("Output saved to " ++ path ++ "\n")
  | some e => .log ⟨.error, "arith.shell", "Error saving output: " ++ e.message path⟩

/-- Carries out an effect in a file tree; `elapsed` is the time that a benchmark takes. -/
def perform (room : Nat) (paint : String → String) (elapsed : Float) (files : FileTree) :
    Effect → Except Abort (List Event × FileTree)
  | .nothing => .ok ([], files)
  | .evaluation statement => .ok (evaluationEvents room paint statement, files)
  | .message text => .ok ([.out (text ++ "\n")], files)
  | .benchmark => .ok (benchmarkEvents room elapsed, files)
  | .save path contents => do
    Abort.checkPath path
    match files.write path contents with
    | .ok after => return ([saveEvent path none], after)
    | .error e => return ([saveEvent path (some e)], files)
  | .farewell statement =>
    .ok ((statement.map (evaluationEvents room paint)).getD [] ++ [.out "\n"], files)

end Effect

end Calculator
