import Calculator.Evaluation

/-!
# Events

What the calculator does is a list of events: text for the user, text for the error output, entries
for the log. The log goes to the error output too, from a chosen severity on.
-/

set_option autoImplicit false

namespace Calculator

/-- How grave a log entry is. -/
inductive Severity where
  | debug
  | info
  | warning
  | error
deriving DecidableEq, Repr

namespace Severity

/-- The name of a severity in the log. -/
def name : Severity → String
  | .debug => "DEBUG"
  | .info => "INFO"
  | .warning => "WARNING"
  | .error => "ERROR"

/-- The place of a severity among the others. -/
def rank : Severity → Nat
  | .debug => 0
  | .info => 1
  | .warning => 2
  | .error => 3

/-- The least severity that is shown when detail has been asked for a number of times. -/
def threshold : Nat → Severity
  | 0 => .warning
  | 1 => .info
  | _ => .debug

end Severity

/-- An entry for the log. -/
structure LogEntry where
  severity : Severity
  origin : String
  message : String
deriving DecidableEq, Repr

/-- A log entry as a line. -/
def LogEntry.text (entry : LogEntry) : String :=
  entry.severity.name ++ " " ++ entry.origin ++ ": " ++ entry.message ++ "\n"

/-- Something that the calculator does. -/
inductive Event where
  | out (text : String)
  | err (text : String)
  | log (entry : LogEntry)
deriving DecidableEq, Repr

namespace Event

/-- What events write to the standard output. -/
def output (events : List Event) : String :=
  String.join <| events.map fun
    | .out text => text
    | .err _ | .log _ => ""

/-- What events write to the error output, apart from the log. -/
def errors (events : List Event) : String :=
  String.join <| events.map fun
    | .err text => text
    | .out _ | .log _ => ""

/-- What events write to the error output, with the log from a severity on. -/
def errorsAndLog (threshold : Severity) (events : List Event) : String :=
  String.join <| events.map fun
    | .err text => text
    | .log entry => if threshold.rank ≤ entry.severity.rank then entry.text else ""
    | .out _ => ""

end Event

namespace LogEntry

/-- Says how many tokens a text has, the end mark included. -/
def tokenized (tokens : TokenSequence) : LogEntry :=
  ⟨.debug, "arith.lexer", "tokenized " ++ toString tokens.toList.length ++ " tokens"⟩

/-- Says what the root of an expression is. -/
def parsed (e : Expr) : LogEntry :=
  ⟨.debug, "arith.parser", "parsed " ++ e.label ++ " at " ++ ((e.pos?.map Position.text).getD "")⟩

/-- Says how long a program is. -/
def compiled (code : List Instr) : LogEntry :=
  ⟨.debug, "arith.codegen", "compiled " ++ toString code.length ++ " instructions"⟩

/-- Says what a program returned. -/
def computed (value : Float) : LogEntry :=
  ⟨.debug, "arith.vm", "result " ++ Number.literal value⟩

/-- Says which stage met a fault. -/
def failed (fault : Fault) : LogEntry :=
  ⟨.debug, "arith.evaluator", fault.cause.stage.name ++ " failed: " ++ fault.text⟩

/-- The log of an evaluation: an entry for each stage that succeeded, and one for the fault. -/
def ofEvaluation (room : Nat) (text : String) : List LogEntry :=
  match Token.scan text with
  | .error fault => [failed fault]
  | .ok tokens => tokenized tokens ::
    match Expr.parse (room - 2) Parser.defaultLimit tokens with
    | .error fault => [failed fault]
    | .ok e => parsed e ::
      match e.compile with
      | .error fault => [failed fault]
      | .ok code => compiled code ::
        match execute code with
        | .error fault => [failed fault]
        | .ok value => [computed value]

end LogEntry

/-- The log of an evaluation as events. -/
def Event.ofEvaluation (room : Nat) (text : String) : List Event :=
  (LogEntry.ofEvaluation room text).map .log

end Calculator
