import Calculator.Batch
import Calculator.CommandLine.Options
import Calculator.Session.Effect

/-!
# Runs of the program

A run shows a single expression, evaluates files, or holds a session on the input, as the command line
asks. How many calls fit, and how text is painted in colour, is given from outside.
-/

set_option autoImplicit false

namespace Calculator

/-- The summary of the command line. -/
def usageText : String :=
  "usage: arith [-h] [-d] [-f FILE] [-e EXPR]\n" ++
  "             [--emit \x7bvalue,tokens,ast,bytecode\x7d] [--no-color]\n"

/-- The description of the command line. -/
def helpText : String :=
  usageText ++ "\n" ++
  "A simple command-line arithmetic interpreter.\n\n" ++
  "options:\n" ++
  "  -h, --help            show this help message and exit\n" ++
  "  -d, --debug           turn debugging output on (repeat for more)\n" ++
  "  -f FILE, --file FILE  file to evaluate line by line (may be repeated)\n" ++
  "  -e EXPR, --expr EXPR  evaluate a single expression\n" ++
  "  --emit \x7bvalue,tokens,ast,bytecode\x7d\n" ++
  "                        with --expr, print this pipeline stage instead of the\n" ++
  "                        value\n" ++
  "  --no-color            disable coloured diagnostics\n\n" ++
  "With neither --file nor --expr the interactive REPL starts.\n"

namespace Refusal

/-- The exit status of a command line that leads to no run. -/
def status : Refusal → Nat
  | .help => 0
  | .usage _ => 2

/-- What is printed for a command line that leads to no run. -/
def events : Refusal → List Event
  | .help => [.out helpText]
  | .usage e => [.err (usageText ++ "arith: error: " ++ e.message ++ "\n")]

end Refusal

/-- What a run does, how it ends, and the files it leaves. -/
structure Run where
  status : Nat
  events : List Event
  files : FileTree

namespace Run

/-- A session on the lines of the input; the end of the input is a line of its own. -/
def interact (room : Nat) (paint : String → String) (elapsed : Float) (session : Session)
    (files : FileTree) : List String → Except Abort (List Event × FileTree)
  | [] => do
    let turn := session.submit Session.endOfInput
    let left := Effect.roomAfter (room - 1) Session.endOfInput
    let done ← turn.effect.perform left paint elapsed files
    return (.out session.prompt :: done.1, done.2)
  | line :: rest => do
    let turn := session.submit line
    let done ← turn.effect.perform (Effect.roomAfter (room - 1) line) paint elapsed files
    if turn.stop then return (.out session.prompt :: done.1, done.2)
    else
      let others ← interact room paint elapsed turn.session done.2 rest
      return (.out session.prompt :: (done.1 ++ others.1), others.2)

/-- A run under given options; `colored` paints text where colour is wanted. -/
def ofOptions (room : Nat) (colored : String → String) (options : Options) (input : String)
    (elapsed : Float) (files : FileTree) : Except Abort Run :=
  let paint := options.painter colored
  match options.expr with
  | some text =>
    let shown := Emit.events (room - 1) paint options.emit text
    .ok ⟨shown.1, shown.2, files⟩
  | none =>
    if options.files.isEmpty then
      let lines := (Text.inputLines input.toList).map String.ofList
      (interact (room - 1) paint elapsed .fresh files lines).map fun done =>
        ⟨0, .out (Session.intro ++ "\n") :: done.1, done.2⟩
    else
      (Batch.run (room - 1) paint files.read options.files).map fun batch =>
        ⟨batch.status, batch.events, files⟩

end Run

/-- How a run ends, what it writes to the two outputs, and the files it leaves. -/
structure Transcript where
  status : Nat
  output : String
  errors : String
  files : FileTree

/-- Runs the program on arguments, an input and a file tree; `elapsed` is the time that a benchmark
takes. An aborted run has no transcript. -/
def transcript (room : Nat) (colored : String → String) (arguments : List String) (input : String)
    (elapsed : Float) (files : FileTree) : Except Abort Transcript :=
  match Options.ofArguments arguments with
  | .error refusal =>
    .ok ⟨refusal.status, Event.output refusal.events, Event.errors refusal.events, files⟩
  | .ok options =>
    (Run.ofOptions room colored options input elapsed files).map fun run =>
      ⟨run.status, Event.output run.events,
        Event.errorsAndLog (Severity.threshold options.verbosity) run.events, run.files⟩

end Calculator
