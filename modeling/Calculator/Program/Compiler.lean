import Calculator.Program.Compile

/-!
# Compilers

A compiler can be used for one expression after the other. It holds the instructions that it has emitted
since it last started over, and starts over with every expression. Where it meets a fault, it keeps what it
had emitted up to there.
-/

set_option autoImplicit false

namespace Calculator

/-- A compiler, by the instructions that it has emitted since it last started over. -/
structure Compiler where
  code : List Instr
deriving DecidableEq

/-- What a compilation returns: the program, or the fault that stopped it. -/
def Compilation.outcome (c : Compilation) : Except Fault (List Instr) :=
  match c.fault with
  | none => .ok c.code
  | some fault => .error fault

namespace Compiler

/-- A compiler that has not been used. -/
def fresh : Compiler := ⟨[]⟩

/-- Compiles an expression behind what has been emitted, as far as it goes. -/
def extend (c : Compiler) (e : Expr) : Compilation := Compilation.run c.code.reverse [.visit e]

/-- Starts over with an expression. Returns its program or the fault, and the compiler afterwards. -/
def generate (c : Compiler) (e : Expr) : Except Fault (List Instr) × Compiler :=
  let done := { c with code := [] }.extend e
  (done.outcome, ⟨done.code⟩)

/-- Compiles expressions in turn. Lists what was returned for each, and the instructions that the compiler
then held. -/
def generateAll (c : Compiler) : List Expr → List (Except Fault (List Instr) × List Instr)
  | [] => []
  | e :: rest =>
    let done := c.generate e
    (done.1, done.2.code) :: done.2.generateAll rest

end Compiler

end Calculator
