import Calculator.Fault
import Calculator.Program

/-!
# Execution

The machine runs a program from left to right on a stack of operands that starts empty. The one
operand that a program leaves is its result.
-/

set_option autoImplicit false

namespace Calculator

/-- The fault of an instruction that finds too few operands. -/
def Instr.underflow (i : Instr) : Fault := ⟨.stackUnderflow i.opcode.name, i.pos⟩

/-- Replaces the two topmost operands by a result. -/
def Instr.combine (i : Instr) (f : Float → Float → Except Fault Float) :
    List Float → Except Fault (List Float)
  | right :: left :: rest => (f left right).map (· :: rest)
  | _ => .error i.underflow

/-- Division; a divisor equal to zero, of either sign, is a fault. -/
def Instr.divide (i : Instr) (left right : Float) : Except Fault Float :=
  if right == 0 then .error ⟨.divisionByZero, i.pos⟩ else .ok (left / right)

/-- The stack after an instruction, the topmost operand first. -/
def Instr.step (i : Instr) (stack : List Float) : Except Fault (List Float) :=
  match i.opcode with
  | .push value => .ok (value :: stack)
  | .add => i.combine (fun left right => .ok (left + right)) stack
  | .sub => i.combine (fun left right => .ok (left - right)) stack
  | .mul => i.combine (fun left right => .ok (left * right)) stack
  | .div => i.combine i.divide stack
  | .neg =>
    match stack with
    | operand :: rest => .ok (-operand :: rest)
    | [] => .error i.underflow
  | .foreign _ description => .error ⟨.other .executor ("Unknown instruction " ++ description), i.pos⟩

/-- The stack after a program. -/
def runProgram (stack : List Float) : List Instr → Except Fault (List Float)
  | [] => .ok stack
  | instr :: rest =>
    match instr.step stack with
    | .ok next => runProgram next rest
    | .error fault => .error fault

/-- The result on a final stack. -/
def stackResult : List Float → Except Fault Float
  | [] => .error ⟨.stackUnderflow "end of program", none⟩
  | [value] => .ok value
  | stack => .error ⟨.excessValues stack.length, none⟩

/-- The result of a program. -/
def execute (code : List Instr) : Except Fault Float := (runProgram [] code).bind stackResult

end Calculator
