import Calculator.Position

/-!
# Faults

A fault is what stops an evaluation: a cause, and the place of the culprit if there is one. Each
cause belongs to a stage of the evaluation, and this module gives each its wording.
-/

set_option autoImplicit false

namespace Calculator

/-- The stages of an evaluation. -/
inductive Stage where
  | internal
  | tokenizer
  | parser
  | compiler
  | executor
deriving DecidableEq, Repr

/-- The name of a stage in messages. -/
def Stage.name : Stage → String
  | .internal => "internal"
  | .tokenizer => "tokenizer"
  | .parser => "parser"
  | .compiler => "compiler"
  | .executor => "executor"

/-- The reasons for which an evaluation stops. -/
inductive Cause where
  /-- A character that starts no token. -/
  | unexpectedChar (char : String)
  /-- A numeral without exponent digits, or too large for a finite number. -/
  | invalidNumber (text : String)
  /-- A token that cannot stand where it stands. -/
  | unexpectedToken (found : String) (expected : Option String)
  /-- The text ends too early. -/
  | unexpectedEnd (expected : Option String)
  /-- More groups are open than the limit allows. -/
  | nestingTooDeep (limit : Int)
  /-- A node that has no instruction. -/
  | unsupportedOperator (op : String)
  | divisionByZero
  /-- An instruction finds too few operands. -/
  | stackUnderflow (instr : String)
  /-- The program ends with more than one operand. -/
  | excessValues (count : Int)
  /-- Any other failure of a stage. -/
  | other (stage : Stage) (message : String)
deriving DecidableEq, Repr

namespace Cause

/-- The stage that a cause belongs to. -/
def stage : Cause → Stage
  | .unexpectedChar _ | .invalidNumber _ => .tokenizer
  | .unexpectedToken _ _ | .unexpectedEnd _ | .nestingTooDeep _ => .parser
  | .unsupportedOperator _ => .compiler
  | .divisionByZero | .stackUnderflow _ | .excessValues _ => .executor
  | .other stage _ => stage

/-- The name of a cause in messages. -/
def kind : Cause → String
  | .unexpectedChar _ => "UnexpectedChar"
  | .invalidNumber _ => "InvalidNumber"
  | .unexpectedToken _ _ => "UnexpectedToken"
  | .unexpectedEnd _ => "UnexpectedEndOfInput"
  | .nestingTooDeep _ => "NestingTooDeep"
  | .unsupportedOperator _ => "UnsupportedOperator"
  | .divisionByZero => "DivisionByZero"
  | .stackUnderflow _ => "StackUnderflow"
  | .excessValues _ => "ExcessValues"
  | .other .internal _ => "Error"
  | .other .tokenizer _ => "TokenizerError"
  | .other .parser _ => "ParserError"
  | .other .compiler _ => "CompileError"
  | .other .executor _ => "ExecError"

/-- What was expected, as it ends a message; an empty expectation is not mentioned. -/
def expectation : Option String → String
  | none => ""
  | some expected => if expected = "" then "" else ", expected " ++ expected

/-- The wording of a cause. -/
def message : Cause → String
  | .unexpectedChar char => "Unexpected character '" ++ char ++ "'"
  | .invalidNumber text => "Invalid number '" ++ text ++ "'"
  | .unexpectedToken found expected => "Unexpected token " ++ found ++ expectation expected
  | .unexpectedEnd expected => "Unexpected end of input" ++ expectation expected
  | .nestingTooDeep limit => "Expression nested deeper than " ++ toString limit ++ " levels"
  | .unsupportedOperator op => "Unsupported operator " ++ op
  | .divisionByZero => "Division by zero"
  | .stackUnderflow instr => "Stack underflow while executing '" ++ instr ++ "'"
  | .excessValues count => "Execution finished with " ++ toString count ++ " values on the stack"
  | .other _ message => message

end Cause

/-- A cause, and the place of the culprit if there is one. -/
structure Fault where
  cause : Cause
  pos : Option Position
deriving DecidableEq, Repr

namespace Fault

/-- The whole message of a fault: the name of the cause, the place, the wording. -/
def text (f : Fault) : String :=
  let place := match f.pos with
    | none => ""
    | some pos => " at " ++ pos.text
  f.cause.kind ++ place ++ " - " ++ f.cause.message

/-- The line of a fault, or minus one if it has no place. -/
def line (f : Fault) : Int := (f.pos.map (·.line)).getD (-1)

/-- The column of a fault, or minus one if it has no place. -/
def column (f : Fault) : Int := (f.pos.map (·.column)).getD (-1)

end Fault

end Calculator
