import Calculator.Abort
import Calculator.Event
import Calculator.FileTree
import Calculator.LogicalLine
import Calculator.Number.Display

/-!
# Batches

A batch evaluates the scripts of several files in turn. A file that cannot be opened is reported and
the batch goes on; a path that holds the null character, or a file that is not well-formed text,
aborts it.
-/

set_option autoImplicit false

namespace Calculator

/-- What a batch has done, and whether every file could be opened. -/
structure Batch where
  events : List Event
  complete : Bool

namespace Batch

/-- The last name on a path, or the path itself if it ends with a slash. -/
def baseName (path : String) : String :=
  let name := String.ofList (path.toList.reverse.takeWhile (· != '/')).reverse
  if name = "" then path else name

/-- What is printed for one evaluated line of a file. -/
def lineEvents (paint : String → String) (name : String) (e : Evaluation) : List Event :=
  match e.outcome with
  | .ok value =>
    [.out (e.source ++ " [" ++ toString e.line ++ "]: " ++ Number.display value ++ "\n")]
  | .error fault =>
    [.err ("Error in " ++ name ++ ":\n"), .err ((e.report fault).render paint ++ "\n")]

/-- The events for the text of a file: all lines are evaluated before any result is printed. -/
def scriptEvents (room : Nat) (paint : String → String) (name text : String) : List Event :=
  let script := String.ofList (Text.unifyNewlines text.toList)
  let results := evaluateLines (room - 1) script
  .out ("--- Results from " ++ name ++ " ---\n") ::
    (results.flatMap (fun e => Event.ofEvaluation (room - 3) e.source) ++
      results.flatMap (lineEvents paint name) ++ [.out "\n"])

/-- The events for a file that cannot be opened. -/
def failureEvents (path : String) (e : FileError) : List Event :=
  [.log ⟨.error, "arith.filemode", "cannot read " ++ path ++ ": " ++ e.message path⟩,
   .err ("error: cannot read '" ++ path ++ "': " ++ e.reason ++ "\n")]

/-- The event that precedes the opening of a file. -/
def openingEvent (path : String) : Event :=
  .log ⟨.info, "arith.filemode", "Processing file: " ++ baseName path⟩

/-- Evaluates the file of a path, given what opening it yields. -/
def ofFile (room : Nat) (paint : String → String) (path : String)
    (contents : Except FileError ByteArray) : Except Abort Batch := do
  Abort.checkPath path
  match contents with
  | .error e => return ⟨openingEvent path :: failureEvents path e, false⟩
  | .ok bytes =>
    match String.fromUTF8? bytes with
    | none => throw .notText
    | some text => return ⟨openingEvent path :: scriptEvents room paint (baseName path) text, true⟩

/-- Evaluates files in turn. -/
def run (room : Nat) (paint : String → String) (read : String → Except FileError ByteArray) :
    List String → Except Abort Batch
  | [] => .ok ⟨[], true⟩
  | path :: rest => do
    let first ← ofFile (room - 1) paint path (read path)
    let others ← run room paint read rest
    return ⟨first.events ++ others.events, first.complete && others.complete⟩

/-- The exit status of a batch. -/
def status (b : Batch) : Nat := if b.complete then 0 else 1

end Batch

end Calculator
