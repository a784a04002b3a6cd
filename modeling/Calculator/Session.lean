import Calculator.LogicalLine
import Calculator.Session.Command

/-!
# Sessions

A session takes one line after the other. A line that goes on with the next is kept as pending text;
any other line completes a statement, which enters the history and is evaluated if it has code. At
the start of a statement a colon opens a command instead. What a line leads to is an effect: the
session only says what is to be done.
-/

set_option autoImplicit false

namespace Calculator

/-- The statements so far, the text that goes on with the next line, and whether the prompt asks for
such a line. -/
structure Session where
  history : List String
  pending : String
  continuing : Bool
deriving DecidableEq, Repr

/-- What a line leads to. -/
inductive Effect where
  | nothing
  /-- A statement is evaluated and its result printed. -/
  | evaluation (statement : String)
  /-- A text is printed. -/
  | message (text : String)
  /-- The speed of evaluation is measured. -/
  | benchmark
  /-- The history is written to a file. -/
  | save (path contents : String)
  /-- The input has ended; a pending statement is evaluated first. -/
  | farewell (statement : Option String)
deriving DecidableEq, Repr

/-- A session after a line, whether the line ends it, and what the line leads to. -/
structure Turn where
  session : Session
  stop : Bool
  effect : Effect
deriving DecidableEq, Repr

namespace Session

/-- A session before its first line. -/
def fresh : Session := ⟨[], "", false⟩

/-- The line printed before the first prompt. -/
def intro : String :=
  "arith REPL - enter expressions. Use \\ for line-continuation. :q to quit."

/-- The text printed before a line is read. -/
def prompt (s : Session) : String := if s.continuing then "... " else ">> "

/-- The line that stands for the end of the input. -/
def endOfInput : String := "EOF"

/-- The history as it is saved, one statement on each line. -/
def transcript (s : Session) : String := String.join (s.history.map (· ++ "\n"))

/-- Enters a statement into the history, unless it has no code. -/
def enter (s : Session) (statement : String) : Session × Option String :=
  if (codePart statement.toList).isEmpty then (s, none)
  else ({ s with history := s.history ++ [statement] }, some statement)

/-- Carries out a command. -/
def command (s : Session) (c : Command) : Turn :=
  let effect := match c with
    | .quit => .nothing
    | .help => .message Command.helpText
    | .bench => .benchmark
    | .save path _ => .save path s.transcript
    | .unknown name => .message (Command.unknownText name)
  ⟨s, c.leaves, effect⟩

/-- Takes a line that belongs to a statement; the line has no blanks around it. -/
def statementLine (s : Session) (line : List Char) : Turn :=
  if continues line then
    let pending := s.pending ++ String.ofList (continuedPiece line) ++ " "
    ⟨{ s with pending := pending, continuing := true }, false, .nothing⟩
  else
    let entered := enter { s with pending := "", continuing := false }
      (s.pending ++ String.ofList line)
    ⟨entered.1, false, (entered.2.map Effect.evaluation).getD .nothing⟩

/-- Takes the end of the input. -/
def finish (s : Session) : Turn :=
  let rest := Text.trim s.pending.toList
  if rest.isEmpty then ⟨s, true, .farewell none⟩
  else
    let entered := enter { s with pending := "" } (String.ofList rest)
    ⟨entered.1, true, .farewell entered.2⟩

/-- Takes a line. An empty line does nothing unless it ends a pending statement. -/
def submit (s : Session) (line : String) : Turn :=
  let line := Text.trim line.toList
  if line.isEmpty && s.pending.isEmpty then ⟨s, false, .nothing⟩
  else if line = endOfInput.toList then s.finish
  else if s.pending.isEmpty && line.head? == some ':' then s.command (Command.ofStatement line)
  else s.statementLine line

end Session

end Calculator
