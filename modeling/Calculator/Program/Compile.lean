import Calculator.Expr
import Calculator.Fault
import Calculator.Program
import Calculator.Text.Quoted

/-!
# Compilation

An expression becomes the program that leaves its value on the stack: the instructions of the
operands, then that of the operation. The work still to do is a list of tasks, so the depth of a tree
does not matter.
-/

set_option autoImplicit false

namespace Calculator

/-- A piece of compilation that is still to do. -/
inductive Task where
  /-- Compile an expression. -/
  | visit (e : Expr)
  /-- Emit an instruction. -/
  | emit (instr : Instr)

/-- The instruction of an operation on two operands. -/
def Operator.binaryOpcode? : Operator → Option Opcode
  | .plus => some .add
  | .minus => some .sub
  | .times => some .mul
  | .over => some .div
  | .other _ => none

/-- The fault of an operator that has no instruction. -/
def Operator.unsupported (op : Operator) (pos : Position) : Fault :=
  ⟨.unsupportedOperator (Text.quoted op.symbol), some pos⟩

/-- The tasks that compiling an expression comes down to, or the fault of its root. -/
def Expr.tasks : Expr → Except Fault (List Task)
  | .number value pos => .ok [.emit ⟨.push value, some pos⟩]
  | .empty pos => .ok [.emit ⟨.push 0, some pos⟩]
  | .unary op operand pos =>
    match op with
    | .plus => .ok [.visit operand]
    | .minus => .ok [.visit operand, .emit ⟨.neg, some pos⟩]
    | _ => .error (op.unsupported pos)
  | .binary op left right pos =>
    match op.binaryOpcode? with
    | some opcode => .ok [.visit left, .visit right, .emit ⟨opcode, some pos⟩]
    | none => .error (op.unsupported pos)
  | .foreign label _ pos => .error ⟨.unsupportedOperator label, pos⟩

/-- A bound on the steps that compiling an expression takes. -/
def Expr.effort : Expr → Nat
  | .unary _ operand _ => operand.effort + 2
  | .binary _ left right _ => left.effort + right.effort + 2
  | _ => 2

/-- A bound on the steps that a task takes. -/
def Task.effort : Task → Nat
  | .visit e => e.effort
  | .emit _ => 1

/-- A bound on the steps that a list of tasks takes. -/
def Task.totalEffort : List Task → Nat
  | [] => 0
  | task :: rest => task.effort + totalEffort rest

/-- The effort for two lists of tasks adds up. -/
theorem Task.totalEffort_append (first second : List Task) :
    totalEffort (first ++ second) = totalEffort first + totalEffort second := by
  induction first with
  | nil => simp [totalEffort]
  | cons task first ih => simp [totalEffort, ih, Nat.add_assoc]

/-- The tasks that a node is replaced by take less effort than the node. -/
theorem Expr.totalEffort_tasks_lt {e : Expr} {tasks : List Task} (h : e.tasks = .ok tasks) :
    Task.totalEffort tasks < e.effort := by
  cases e with
  | number value pos =>
      cases h
      simp [Task.totalEffort, Task.effort, Expr.effort]
  | empty pos =>
      cases h
      simp [Task.totalEffort, Task.effort, Expr.effort]
  | unary op operand pos =>
      cases op <;> cases h <;> simp [Task.totalEffort, Task.effort, Expr.effort]
  | binary op left right pos =>
      cases op <;> cases h <;> simp [Task.totalEffort, Task.effort, Expr.effort] <;> omega
  | foreign label payload pos => cases h

/-- What a compilation leaves: the instructions emitted, and the fault that stopped it, if any. -/
structure Compilation where
  code : List Instr
  fault : Option Fault
deriving DecidableEq

/-- Carries out a list of tasks; `emitted` are the instructions so far, the last one first. -/
def Compilation.run (emitted : List Instr) (tasks : List Task) : Compilation :=
  match tasks with
  | [] => ⟨emitted.reverse, none⟩
  | .emit instr :: rest => run (instr :: emitted) rest
  | .visit e :: rest =>
    match _h : e.tasks with
    | .ok first => run emitted (first ++ rest)
    | .error fault => ⟨emitted.reverse, some fault⟩
termination_by Task.totalEffort tasks
decreasing_by
  · simp [Task.totalEffort, Task.effort]
  · have := Expr.totalEffort_tasks_lt _h
    simp only [Task.totalEffort, Task.totalEffort_append, Task.effort] at this ⊢
    omega

/-- Compiles an expression as far as it goes. -/
def Expr.compilation (e : Expr) : Compilation := Compilation.run [] [.visit e]

/-- The program of an expression. -/
def Expr.compile (e : Expr) : Except Fault (List Instr) :=
  match e.compilation with
  | ⟨code, none⟩ => .ok code
  | ⟨_, some fault⟩ => .error fault

end Calculator
