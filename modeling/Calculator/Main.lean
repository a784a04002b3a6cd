import Calculator.CommandLine.Run

/-!
# The program

Reads the command line, and carries out on the real input, outputs, files and clock what the library
says is to be done.
-/

set_option autoImplicit false

namespace Calculator.Main

/-- Bold red text on a terminal. -/
def colored (text : String) : String := "\x1b[1m\x1b[31m" ++ text ++ "\x1b[0m"

/-- The room for calls: more than any text can take, since parsing keeps its calls in memory. -/
def room : Nat := 1000000000

/-- Carries out events; the log is shown from a severity on. -/
def carryOut (threshold : Severity) (events : List Event) : IO Unit := do
  let output ← IO.getStdout
  for event in events do
    match event with
    | .out text =>
      output.putStr text
      output.flush
    | .err text => IO.eprint text
    | .log entry =>
      if threshold.rank ≤ entry.severity.rank then IO.eprint entry.text

/-- The error that has a number, which some calls report with the opposite sign. -/
def errorOfCode (code : UInt32) : FileError :=
  let known := [FileError.notDirectory, .isDirectory, .nameTooLong]
  (known.find? fun e => e.code == code.toNat || e.code == (0 - code).toNat).getD .notFound

/-- Why a file could not be opened, as the library knows it. -/
def fileError : IO.Error → FileError
  | .inappropriateType _ code _ | .invalidArgument _ code _ => errorOfCode code
  | _ => .notFound

/-- Tries an action on a file. -/
def attempt {α : Type} (action : IO α) : IO (Except FileError α) := do
  match ← action.toBaseIO with
  | .ok a => return .ok a
  | .error e => return .error (fileError e)

/-- The result of a computation that may abort; an abort ends the program. -/
def orAbort {α : Type} : Except Abort α → IO α
  | .ok a => return a
  | .error abort => throw (IO.userError abort.reason)

/-- Times the benchmark, in seconds. -/
def measure : IO Float := do
  let start ← IO.monoNanosNow
  for round in [0:Effect.benchmarkRounds] do
    discard <| IO.lazyPure fun _ => evaluate room Effect.benchmarkText round
  let finish ← IO.monoNanosNow
  return Float.ofNat (finish - start) / 1e9

/-- Carries out an effect of a session. -/
def perform (options : Options) (effect : Effect) : IO Unit := do
  let events ← match effect with
    | .save path contents => do
      orAbort (Abort.checkPath path)
      let saved ← attempt (IO.FS.writeFile path contents)
      pure [Effect.saveEvent path (match saved with | .ok _ => none | .error e => some e)]
    | .benchmark => do pure (Effect.benchmarkEvents room (← measure))
    | other => do pure (← orAbort (other.perform room (options.painter colored) 0 .empty)).1
  carryOut (Severity.threshold options.verbosity) events

/-- The next line of the input and those read together with it. -/
def nextLines (lines : List String) : IO (String × List String) := do
  match lines with
  | line :: rest => return (line, rest)
  | [] =>
    let text ← (← IO.getStdin).getLine
    if text.isEmpty then return (Session.endOfInput, [])
    match (Text.inputLines text.toList).map String.ofList with
    | line :: rest => return (line, rest)
    | [] => return ("", [])

/-- Holds a session; `lines` are those that have been read and not yet taken. -/
partial def converse (options : Options) (session : Session) (lines : List String) : IO Unit := do
  carryOut .warning [.out session.prompt]
  let (line, rest) ← nextLines lines
  let turn := session.submit line
  perform options turn.effect
  unless turn.stop do converse options turn.session rest

/-- Evaluates files in turn, and returns the exit status. -/
def evaluateFiles (options : Options) : IO UInt32 := do
  let mut status := 0
  for path in options.files do
    let contents ← attempt (IO.FS.readBinFile path)
    let batch ← orAbort (Batch.ofFile room (options.painter colored) path contents)
    carryOut (Severity.threshold options.verbosity) batch.events
    unless batch.complete do status := 1
  return status

/-- Runs the program under given options, and returns the exit status. -/
def run (options : Options) : IO UInt32 := do
  match options.expr with
  | some text =>
    let shown := Emit.events room (options.painter colored) options.emit text
    carryOut (Severity.threshold options.verbosity) shown.2
    return UInt32.ofNat shown.1
  | none =>
    if options.files.isEmpty then
      IO.println Session.intro
      converse options .fresh []
      return 0
    else evaluateFiles options

end Calculator.Main

/-- Runs the program on the arguments of the command line. -/
def main (arguments : List String) : IO UInt32 := do
  match Calculator.Options.ofArguments arguments with
  | .error refusal =>
    Calculator.Main.carryOut .warning refusal.events
    return UInt32.ofNat refusal.status
  | .ok options => Calculator.Main.run options
