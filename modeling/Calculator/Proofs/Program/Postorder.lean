import Calculator.Program.Compile

/-!
# Compilation is a walk in postorder

Compilation carries out a list of tasks. This module states what it computes as a recursion over the
tree: the root is checked first, then come the instructions of the left operand, those of the right
operand, and last that of the operation. The tasks that wait behind an expression are kept arbitrary,
since an operand is compiled while its siblings and its parent are still to do.

`Compilation.run_visit` is the one lemma through which the rest of the library looks at the tasks.
-/

set_option autoImplicit false

namespace Calculator

namespace Compilation

/-- One compilation after another; a fault in the first keeps the second from starting. -/
def andThen (first second : Compilation) : Compilation :=
  match first.fault with
  | none => ⟨first.code ++ second.code, second.fault⟩
  | some _ => first

/-- The compilation of an instruction that stands ready. -/
def emit (opcode : Opcode) (pos : Position) : Compilation := ⟨[⟨opcode, some pos⟩], none⟩

/-- The compilation that stops at once. -/
def stop (fault : Fault) : Compilation := ⟨[], some fault⟩

/-- Emitting an instruction emits it alone. -/
@[simp] theorem code_emit (opcode : Opcode) (pos : Position) :
    (emit opcode pos).code = [⟨opcode, some pos⟩] := rfl

/-- Emitting an instruction meets no fault. -/
@[simp] theorem fault_emit (opcode : Opcode) (pos : Position) : (emit opcode pos).fault = none := rfl

/-- After a compilation without a fault, the next one follows. -/
theorem andThen_of_fault_eq_none {first second : Compilation} (h : first.fault = none) :
    first.andThen second = ⟨first.code ++ second.code, second.fault⟩ := by
  simp [andThen, h]

/-- After a compilation that stops, nothing follows. -/
theorem andThen_of_fault_eq_some {first second : Compilation} {fault : Fault}
    (h : first.fault = some fault) : first.andThen second = first := by
  simp [andThen, h]

end Compilation

/-- The compilation of a tree, by recursion over the tree. -/
def Expr.postorder : Expr → Compilation
  | .number value pos => .emit (.push value) pos
  | .empty pos => .emit (.push 0) pos
  | .unary op operand pos =>
    match op with
    | .plus => operand.postorder
    | .minus => operand.postorder.andThen (.emit .neg pos)
    | _ => .stop (op.unsupported pos)
  | .binary op left right pos =>
    match op.binaryOpcode? with
    | some opcode => left.postorder.andThen (right.postorder.andThen (.emit opcode pos))
    | none => .stop (op.unsupported pos)
  | .foreign label _ pos => .stop ⟨.unsupportedOperator label, pos⟩

namespace Compilation

/-- Without tasks, what has been emitted is the code. -/
theorem run_nil (emitted : List Instr) : run emitted [] = ⟨emitted.reverse, none⟩ := by
  rw [run]

/-- An instruction that stands ready is emitted. -/
theorem run_emit (emitted : List Instr) (instr : Instr) (rest : List Task) :
    run emitted (.emit instr :: rest) = run (instr :: emitted) rest := by
  rw [run]

/-- A node is replaced by its tasks. -/
theorem run_visit_of_ok {e : Expr} {first : List Task} (h : e.tasks = .ok first)
    (emitted : List Instr) (rest : List Task) :
    run emitted (.visit e :: rest) = run emitted (first ++ rest) := by
  rw [run]
  split
  · next first' h' =>
    rw [h] at h'
    cases h'
    rfl
  · next fault h' =>
    rw [h] at h'
    cases h'

/-- A node with a fault stops the run. -/
theorem run_visit_of_error {e : Expr} {fault : Fault} (h : e.tasks = .error fault)
    (emitted : List Instr) (rest : List Task) :
    run emitted (.visit e :: rest) = ⟨emitted.reverse, some fault⟩ := by
  rw [run]
  split
  · next first h' =>
    rw [h] at h'
    cases h'
  · next fault' h' =>
    rw [h] at h'
    cases h'
    rfl

/-- What is left of a list of tasks once the compilation in front of them has been made: the
instructions emitted before come first, and a fault leaves the tasks undone. -/
def resume (emitted : List Instr) (rest : List Task) (front : Compilation) : Compilation :=
  match front.fault with
  | none => run (front.code.reverse ++ emitted) rest
  | some fault => ⟨emitted.reverse ++ front.code, some fault⟩

/-- Behind a compilation without a fault, the run goes on. -/
theorem resume_of_fault_eq_none {front : Compilation} (h : front.fault = none)
    (emitted : List Instr) (rest : List Task) :
    resume emitted rest front = run (front.code.reverse ++ emitted) rest := by
  simp [resume, h]

/-- Behind a compilation that stops, the run stops. -/
theorem resume_of_fault_eq_some {front : Compilation} {fault : Fault}
    (h : front.fault = some fault) (emitted : List Instr) (rest : List Task) :
    resume emitted rest front = ⟨emitted.reverse ++ front.code, some fault⟩ := by
  simp [resume, h]

/-- Behind an instruction, the run goes on with it emitted. -/
theorem resume_emit (emitted : List Instr) (rest : List Task) (opcode : Opcode) (pos : Position) :
    resume emitted rest (emit opcode pos) = run (⟨opcode, some pos⟩ :: emitted) rest := rfl

/-- Behind a stop, nothing is emitted any more. -/
theorem resume_stop (emitted : List Instr) (rest : List Task) (fault : Fault) :
    resume emitted rest (stop fault) = ⟨emitted.reverse, some fault⟩ := by
  simp [resume, stop]

/-- Behind two compilations of which the first has no fault, the run goes on behind the second. -/
theorem resume_andThen_of_fault_eq_none {first : Compilation} (h : first.fault = none)
    (emitted : List Instr) (rest : List Task) (second : Compilation) :
    resume emitted rest (first.andThen second) =
      resume (first.code.reverse ++ emitted) rest second := by
  rw [andThen_of_fault_eq_none h]
  cases hs : second.fault <;> simp [resume, hs]

/-- A compilation and then one emitted instruction, in front of other tasks. -/
theorem resume_andThen_emit (emitted : List Instr) (rest : List Task) (first : Compilation)
    (opcode : Opcode) (pos : Position) :
    resume emitted rest (first.andThen (emit opcode pos)) =
      resume emitted (.emit ⟨opcode, some pos⟩ :: rest) first := by
  cases hf : first.fault with
  | none =>
      rw [resume_andThen_of_fault_eq_none hf, resume_emit, resume_of_fault_eq_none hf, run_emit]
  | some fault =>
      rw [andThen_of_fault_eq_some hf, resume_of_fault_eq_some hf, resume_of_fault_eq_some hf]

/-- Compiling an expression in front of other tasks is the walk in postorder, and then those
tasks. -/
theorem run_visit (e : Expr) (emitted : List Instr) (rest : List Task) :
    run emitted (.visit e :: rest) = resume emitted rest e.postorder := by
  induction e generalizing emitted rest with
  | number value pos =>
      rw [run_visit_of_ok rfl]
      exact run_emit emitted _ rest
  | empty pos =>
      rw [run_visit_of_ok rfl]
      exact run_emit emitted _ rest
  | unary op operand pos ih =>
      cases op with
      | plus =>
          rw [run_visit_of_ok rfl]
          exact ih emitted rest
      | minus =>
          -- The operand is followed by the task that emits the sign.
          rw [run_visit_of_ok rfl]
          rw [Expr.postorder, resume_andThen_emit]
          exact ih emitted _
      | _ =>
          rw [run_visit_of_error rfl]
          exact (resume_stop emitted rest _).symm
  | binary op left right pos ihl ihr =>
      cases hop : op.binaryOpcode? with
      | none =>
          have htasks : (Expr.binary op left right pos).tasks = .error (op.unsupported pos) := by
            simp [Expr.tasks, hop]
          rw [run_visit_of_error htasks, Expr.postorder, hop]
          exact (resume_stop emitted rest _).symm
      | some opcode =>
          have htasks : (Expr.binary op left right pos).tasks =
              .ok [.visit left, .visit right, .emit ⟨opcode, some pos⟩] := by
            simp [Expr.tasks, hop]
          rw [run_visit_of_ok htasks, Expr.postorder, hop]
          simp only [List.cons_append, List.nil_append]
          rw [ihl]
          cases hl : left.postorder.fault with
          | some fault =>
              rw [andThen_of_fault_eq_some hl, resume_of_fault_eq_some hl,
                resume_of_fault_eq_some hl]
          | none =>
              rw [resume_of_fault_eq_none hl, ihr, resume_andThen_of_fault_eq_none hl,
                resume_andThen_emit]
  | foreign label payload pos =>
      rw [run_visit_of_error rfl]
      exact (resume_stop emitted rest _).symm

end Compilation

/-- The work list computes the recursion over the tree, whether or not a fault stops it. -/
theorem Expr.compilation_eq_postorder (e : Expr) : e.compilation = e.postorder := by
  rw [Expr.compilation, Compilation.run_visit]
  cases hf : e.postorder.fault with
  | none =>
      rw [Compilation.resume_of_fault_eq_none hf, Compilation.run_nil, ← hf]
      simp
  | some fault =>
      rw [Compilation.resume_of_fault_eq_some hf, ← hf]
      simp

end Calculator
