import Calculator.Number.Literal
import Calculator.Position
import Calculator.Text.Pad

/-!
# Programs

A program is a list of instructions for a machine with one stack of operands. An instruction carries
the position of the node that it comes from.
-/

set_option autoImplicit false

namespace Calculator

/-- What an instruction does. -/
inductive Opcode where
  | push (value : Float)
  | add
  | sub
  | mul
  | div
  | neg
  /-- Nothing the machine knows; a listing shows the label, a message the description. -/
  | foreign (label description : String)
deriving DecidableEq

/-- The word for an instruction without its operand. -/
def Opcode.name : Opcode → String
  | .push _ => "push"
  | .add => "add"
  | .sub => "sub"
  | .mul => "mul"
  | .div => "div"
  | .neg => "neg"
  | .foreign label _ => label

/-- An instruction, and the position of what it comes from. -/
structure Instr where
  opcode : Opcode
  pos : Option Position
deriving DecidableEq

namespace Instr

/-- An instruction as a listing shows it. -/
def text (i : Instr) : String :=
  match i.opcode with
  | .push value => "push " ++ Number.literal value
  | opcode => opcode.name

end Instr

/-- The listing of a program, one numbered line for each instruction. -/
def listing (code : List Instr) : String :=
  "\n".intercalate <| code.zipIdx.map fun (instr, index) =>
    String.ofList (Text.padZeros 4 (Text.decimalDigits index)) ++ "  " ++ instr.text

end Calculator
