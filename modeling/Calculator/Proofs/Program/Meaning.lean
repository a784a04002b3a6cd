import Calculator.Program.Execute
import Calculator.Proofs.Program.Postorder

/-!
# The program of an expression computes its value

The value of an expression is defined by recursion over the tree: the left operand, then the right
operand, then the operation. Dividing by zero is the only way in which an expression of the language
fails to have a value, and the fault names the first such division in the order of evaluation.

Compiling and then executing does the same. The stack that an operand's program starts from is kept
arbitrary: below the right operand lies the value of the left one.
-/

set_option autoImplicit false

namespace Calculator

/-- The operators that stand before one operand. -/
def Operator.signs : List Operator := [.plus, .minus]

/-- The operators that stand between two operands. -/
def Operator.operations : List Operator := [.plus, .minus, .times, .over]

namespace Expr

/-- The trees of the language: numbers, empty groups, signs and operations. -/
inductive Arithmetic : Expr → Prop where
  | number (value : Float) (pos : Position) : Arithmetic (.number value pos)
  | empty (pos : Position) : Arithmetic (.empty pos)
  | unary {op : Operator} {operand : Expr} (pos : Position) (hop : op ∈ Operator.signs)
      (h : Arithmetic operand) : Arithmetic (.unary op operand pos)
  | binary {op : Operator} {left right : Expr} (pos : Position) (hop : op ∈ Operator.operations)
      (hl : Arithmetic left) (hr : Arithmetic right) : Arithmetic (.binary op left right pos)

end Expr

/-- The fault of a division by zero at a position. -/
def Fault.zeroDivision (pos : Position) : Fault := ⟨.divisionByZero, some pos⟩

/-- The result of an operation at a position on two values. A divisor equal to zero, of either sign,
is a fault. -/
def Operator.compute (op : Operator) (pos : Position) (left right : Float) : Except Fault Float :=
  match op with
  | .plus => .ok (left + right)
  | .minus => .ok (left - right)
  | .times => .ok (left * right)
  | .over => if right == 0 then .error (.zeroDivision pos) else .ok (left / right)
  | .other _ => .error (op.unsupported pos)

namespace Expr

/-- The value of a tree, by recursion over the tree: an operation evaluates its left operand, then
its right operand, and then combines the two values. -/
def value : Expr → Except Fault Float
  | .number value _ => .ok value
  | .empty _ => .ok 0
  | .unary op operand pos =>
    match op with
    | .plus => operand.value
    | .minus => operand.value.map (-·)
    | _ => .error (op.unsupported pos)
  | .binary op left right pos =>
    left.value.bind fun x => right.value.bind fun y => op.compute pos x y
  | .foreign label _ pos => .error ⟨.unsupportedOperator label, pos⟩

/-- Whether two outcomes are values of which the second is zero. -/
def dividesByZero : Except Fault Float → Except Fault Float → Bool
  | .ok _, .ok divisor => divisor == 0
  | _, _ => false

/-- The positions of the divisions whose operands have values, the divisor being zero, in the order
of evaluation. -/
def zeroDivisions : Expr → List Position
  | .number _ _ | .empty _ | .foreign _ _ _ => []
  | .unary _ operand _ => operand.zeroDivisions
  | .binary op left right pos =>
    left.zeroDivisions ++ (right.zeroDivisions ++
      if op = .over ∧ dividesByZero left.value right.value then [pos] else [])

/-- A tree of the language either has a value, and then no division in it is by zero, or fails at the
first of its divisions by zero. -/
theorem Arithmetic.value_cases {e : Expr} (h : e.Arithmetic) :
    (∃ x, e.value = .ok x ∧ e.zeroDivisions = []) ∨
      ∃ pos, e.value = .error (.zeroDivision pos) ∧ e.zeroDivisions.head? = some pos := by
  induction h with
  | number value pos => exact .inl ⟨value, rfl, rfl⟩
  | empty pos => exact .inl ⟨0, rfl, rfl⟩
  | @unary op operand pos hop h ih =>
      simp only [Operator.signs, List.mem_cons, List.not_mem_nil, or_false] at hop
      obtain ⟨x, hx, hnone⟩ | ⟨site, hsite, hhead⟩ := ih
      · rcases hop with rfl | rfl
        · exact .inl ⟨x, by simp [value, hx], by simp [zeroDivisions, hnone]⟩
        · exact .inl ⟨-x, by simp [value, hx, Except.map], by simp [zeroDivisions, hnone]⟩
      · refine .inr ⟨site, ?_, by simp [zeroDivisions, hhead]⟩
        rcases hop with rfl | rfl <;> simp [value, hsite, Except.map]
  | @binary op left right pos hop hl hr ihl ihr =>
      obtain ⟨x, hx, hleft⟩ | ⟨site, hsite, hhead⟩ := ihl
      · obtain ⟨y, hy, hright⟩ | ⟨site, hsite, hhead⟩ := ihr
        · -- Both operands have values, so all hangs on the operation itself.
          have hvalue : (Expr.binary op left right pos).value = op.compute pos x y := by
            simp [value, hx, hy, Except.bind]
          rw [hvalue]
          simp only [zeroDivisions, hleft, hright, List.nil_append, hx, hy, dividesByZero]
          simp only [Operator.operations, List.mem_cons, List.not_mem_nil, or_false] at hop
          rcases hop with rfl | rfl | rfl | rfl
          · exact .inl ⟨x + y, rfl, by simp⟩
          · exact .inl ⟨x - y, rfl, by simp⟩
          · exact .inl ⟨x * y, rfl, by simp⟩
          · by_cases hzero : (y == 0) = true
            · exact .inr ⟨pos, by simp [Operator.compute, hzero], by simp [hzero]⟩
            · exact .inl ⟨x / y, by simp [Operator.compute, hzero], by simp [hzero]⟩
        · refine .inr ⟨site, by simp [value, hx, hsite, Except.bind], ?_⟩
          simp [zeroDivisions, hleft, List.head?_append, hhead]
      · refine .inr ⟨site, by simp [value, hsite, Except.bind], ?_⟩
        simp [zeroDivisions, List.head?_append, hhead]

/-- A tree of the language compiles without a fault. -/
theorem Arithmetic.fault_postorder {e : Expr} (h : e.Arithmetic) : e.postorder.fault = none := by
  induction h with
  | number value pos => rfl
  | empty pos => rfl
  | @unary op operand pos hop h ih =>
      simp only [Operator.signs, List.mem_cons, List.not_mem_nil, or_false] at hop
      rcases hop with rfl | rfl
      · exact ih
      · rw [postorder, Compilation.andThen_of_fault_eq_none ih]
        rfl
  | @binary op left right pos hop hl hr ihl ihr =>
      obtain ⟨opcode, hopcode⟩ : ∃ opcode, op.binaryOpcode? = some opcode := by
        simp only [Operator.operations, List.mem_cons, List.not_mem_nil, or_false] at hop
        rcases hop with rfl | rfl | rfl | rfl <;> exact ⟨_, rfl⟩
      simp only [postorder, hopcode]
      rw [Compilation.andThen_of_fault_eq_none ihl, Compilation.andThen_of_fault_eq_none ihr]
      rfl

end Expr

/-- A program in two parts runs the second part on the stack that the first one leaves. -/
theorem runProgram_append (stack : List Float) (first second : List Instr) :
    runProgram stack (first ++ second) =
      (runProgram stack first).bind fun next => runProgram next second := by
  induction first generalizing stack with
  | nil => rfl
  | cons instr first ih =>
      simp only [List.cons_append, runProgram]
      cases instr.step stack with
      | ok next => exact ih next
      | error fault => rfl

/-- An operation's instruction replaces the two topmost values by the result of the operation, or
fails as the operation does. -/
theorem Operator.step_binaryOpcode {op : Operator} {opcode : Opcode}
    (h : op.binaryOpcode? = some opcode) (pos : Position) (x y : Float) (stack : List Float) :
    Instr.step ⟨opcode, some pos⟩ (y :: x :: stack) = (op.compute pos x y).map (· :: stack) := by
  cases op with
  | plus | minus | times => cases h; rfl
  | other symbol => cases h
  | _ =>
      -- Only the division is left.
      cases h
      simp only [Instr.step, Instr.combine, Instr.divide, Operator.compute, Fault.zeroDivision]

namespace Expr

/-- The program of a tree of the language leaves its value on top of any stack, or fails as the tree
does. -/
theorem Arithmetic.runProgram_postorder {e : Expr} (h : e.Arithmetic) (stack : List Float) :
    runProgram stack e.postorder.code = e.value.map (· :: stack) := by
  induction h generalizing stack with
  | number value pos => rfl
  | empty pos => rfl
  | @unary op operand pos hop h ih =>
      simp only [Operator.signs, List.mem_cons, List.not_mem_nil, or_false] at hop
      rcases hop with rfl | rfl
      · exact ih stack
      · simp only [postorder, value]
        rw [Compilation.andThen_of_fault_eq_none h.fault_postorder]
        simp only [Compilation.code_emit]
        rw [runProgram_append, ih]
        cases operand.value <;> rfl
  | @binary op left right pos hop hl hr ihl ihr =>
      cases hopcode : op.binaryOpcode? with
      | none =>
          have hfault := (Arithmetic.binary pos hop hl hr).fault_postorder
          simp [postorder, hopcode, Compilation.stop] at hfault
      | some opcode =>
          simp only [postorder, hopcode, value]
          rw [Compilation.andThen_of_fault_eq_none hl.fault_postorder,
            Compilation.andThen_of_fault_eq_none hr.fault_postorder]
          simp only [Compilation.code_emit]
          rw [runProgram_append, ihl]
          cases left.value with
          | error fault => rfl
          | ok x =>
              simp only [Except.map, Except.bind]
              rw [runProgram_append, ihr]
              cases right.value with
              | error fault => rfl
              | ok y =>
                  simp only [Except.map, Except.bind, runProgram]
                  rw [Operator.step_binaryOpcode hopcode]
                  cases op.compute pos x y <;> rfl

/-- A tree of the language compiles to its code in postorder. -/
theorem Arithmetic.compile_eq {e : Expr} (h : e.Arithmetic) : e.compile = .ok e.postorder.code := by
  have hfault := h.fault_postorder
  rw [compile, compilation_eq_postorder]
  generalize e.postorder = compilation at hfault ⊢
  obtain ⟨code, fault⟩ := compilation
  cases hfault
  rfl

/-- The code of a tree of the language computes its value. -/
theorem Arithmetic.execute_postorder {e : Expr} (h : e.Arithmetic) :
    execute e.postorder.code = e.value := by
  rw [execute, h.runProgram_postorder]
  cases e.value <;> rfl

end Expr

/-- Every tree of the language compiles, and its program has the outcome of the tree: its value, or
the fault of its first division by zero in the order of evaluation. -/
theorem execute_compile_eq_value {e : Expr} (h : e.Arithmetic) :
    ∃ code, e.compile = .ok code ∧ execute code = e.value ∧
      ∀ fault, execute code = .error fault →
        ∃ pos, fault = .zeroDivision pos ∧ e.zeroDivisions.head? = some pos := by
  refine ⟨e.postorder.code, h.compile_eq, h.execute_postorder, ?_⟩
  intro fault hfault
  rw [h.execute_postorder] at hfault
  obtain ⟨x, hx, -⟩ | ⟨pos, hpos, hhead⟩ := h.value_cases
  · rw [hx] at hfault
    cases hfault
  · rw [hpos] at hfault
    cases hfault
    exact ⟨pos, rfl, hhead⟩

/-- The program of `6/() - -2/(3*0)` fails at the first of its two divisions by zero. -/
theorem execute_compile_eq_value_two_zero_divisions :
    ∃ code, (Expr.binary .minus (.binary .over (.number 6 ⟨1, 1⟩) (.empty ⟨1, 3⟩) ⟨1, 2⟩)
        (.binary .over (.unary .minus (.number 2 ⟨1, 9⟩) ⟨1, 8⟩)
          (.binary .times (.number 3 ⟨1, 12⟩) (.number 0 ⟨1, 14⟩) ⟨1, 13⟩) ⟨1, 10⟩)
        ⟨1, 6⟩).compile = .ok code ∧
      execute code = .error (.zeroDivision ⟨1, 2⟩) := by
  have hminus : Operator.minus ∈ Operator.operations := by decide
  have htimes : Operator.times ∈ Operator.operations := by decide
  have hover : Operator.over ∈ Operator.operations := by decide
  have hsign : Operator.minus ∈ Operator.signs := by decide
  obtain ⟨code, hcode, hvalue, -⟩ := execute_compile_eq_value
    (.binary ⟨1, 6⟩ hminus (.binary ⟨1, 2⟩ hover (.number 6 ⟨1, 1⟩) (.empty ⟨1, 3⟩))
      (.binary ⟨1, 10⟩ hover (.unary ⟨1, 8⟩ hsign (.number 2 ⟨1, 9⟩))
        (.binary ⟨1, 13⟩ htimes (.number 3 ⟨1, 12⟩) (.number 0 ⟨1, 14⟩))))
  refine ⟨code, hcode, hvalue.trans ?_⟩
  rfl

end Calculator
