import Calculator.SavePath
import Calculator.Text.Blank

/-!
# Commands

A statement that starts with a colon is a command to the session itself. Its name ends at the first
space; what follows is its argument.
-/

set_option autoImplicit false

namespace Calculator

/-- What the user can ask of a session. -/
inductive Command where
  | quit
  | help
  | bench
  /-- Save the session under a path, and perhaps leave it. -/
  | save (path : String) (leave : Bool)
  | unknown (name : String)
deriving DecidableEq, Repr

namespace Command

/-- The name under which a session is saved unless another is given. -/
def defaultName : String := "history"

/-- The path that the argument of a save command stands for. -/
def savePathOf (argument : List Char) : String :=
  savePath (if argument.isEmpty then defaultName else String.ofList argument)

/-- The command that a statement spells. -/
def ofStatement (cs : List Char) : Command :=
  let name := String.ofList (cs.takeWhile (· != ' '))
  let argument := Text.trim ((cs.dropWhile (· != ' ')).drop 1)
  match name with
  | ":q" | ":quit" | ":exit" => .quit
  | ":h" | ":help" => .help
  | ":bench" => .bench
  | ":save" | ":w" => .save (savePathOf argument) false
  | ":wq" => .save (savePathOf argument) true
  | name => .unknown name

/-- Whether a session ends with a command. -/
def leaves : Command → Bool
  | .quit => true
  | .save _ leave => leave
  | .help | .bench | .unknown _ => false

/-- The text that explains the commands. -/
def helpText : String :=
  "Enter an arithmetic expression using numbers, + - * / and parentheses.\n" ++
  "End a line with \\ to continue it on the next one; ';' starts a comment.\n\n" ++
  "Commands:\n" ++
  "  :q, :quit, :exit      leave the interpreter\n" ++
  "  :h, :help             show this text\n" ++
  "  :bench                time a long expression\n" ++
  "  :save [name], :w      save this session's expressions to <name>.arith\n" ++
  "  :wq [name]            save, then quit"

/-- The answer to a command that does not exist. -/
def unknownText (name : String) : String :=
  "Unknown command '" ++ name ++ "'. Type :help for the list of commands."

end Command

end Calculator
