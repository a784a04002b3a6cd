import Calculator.Proofs.Program.Balance
import Calculator.Proofs.Program.Meaning
import Mathlib.Data.List.Induction
import Mathlib.Order.Nat

/-!
# The first instruction that fails

Where a program fails can be told from a count and from plain arithmetic, for any list of instructions. The
count is that of the operands on the stack: the pushes less the operations on two operands. The arithmetic gives
the operands themselves, as if nothing were ever checked.

An instruction fails if the machine does not know it, if the count is too small for it, or if it divides by an
operand that is zero. The machine runs up to the first such instruction and reports it; as long as there is
none, its stack is the one that the arithmetic gives, and as high as the count says (`runProgram_operands`). So
a program without a failing instruction returns a value if the count ends at one, and leaves too many values if
it ends higher. It cannot end lower, since every instruction leaves an operand (`ne_nil_of_step`).
-/

set_option autoImplicit false

namespace Calculator

/-! ## What can be told without running a program -/

/-- Whether an instruction pushes an operand. -/
def Opcode.isPush : Opcode → Bool
  | .push _ => true
  | .add | .sub | .mul | .div | .neg | .foreign _ _ => false

/-- Whether an instruction takes two operands. -/
def Opcode.isBinary : Opcode → Bool
  | .add | .sub | .mul | .div => true
  | .push _ | .neg | .foreign _ _ => false

/-- How many operands a program leaves: the number of its pushes less the number of its operations on two
operands. -/
def depth (code : List Instr) : Int :=
  (code.countP (·.opcode.isPush) : Int) - code.countP (·.opcode.isBinary)

/-- The operands after an instruction, the topmost first, by arithmetic alone. -/
def Opcode.transform : Opcode → List Float → List Float
  | .push value, operands => value :: operands
  | .neg, operand :: rest => -operand :: rest
  | .add, right :: left :: rest => (left + right) :: rest
  | .sub, right :: left :: rest => (left - right) :: rest
  | .mul, right :: left :: rest => (left * right) :: rest
  | .div, right :: left :: rest => (left / right) :: rest
  | _, operands => operands

/-- The operands after a program, the topmost first, by arithmetic alone. -/
def operands (code : List Instr) : List Float :=
  code.foldl (fun operands i => i.opcode.transform operands) []

/-- `i.FailsBehind before fault`: behind the instructions `before`, the instruction `i` fails with `fault`. -/
inductive Instr.FailsBehind (before : List Instr) (i : Instr) : Fault → Prop where
  | unknown {label description : String} (h : i.opcode = .foreign label description) :
      FailsBehind before i ⟨.other .executor ("Unknown instruction " ++ description), i.pos⟩
  | belowTwo (h : i.opcode.isBinary = true) (hdepth : depth before < 2) :
      FailsBehind before i ⟨.stackUnderflow i.opcode.name, i.pos⟩
  | belowOne (h : i.opcode = .neg) (hdepth : depth before < 1) :
      FailsBehind before i ⟨.stackUnderflow i.opcode.name, i.pos⟩
  | zeroDivisor {right : Float} (h : i.opcode = .div) (hdepth : 2 ≤ depth before)
      (hright : (operands before).head? = some right) (hzero : (right == 0) = true) :
      FailsBehind before i ⟨.divisionByZero, i.pos⟩

/-- The instruction of a program at an index fails with a fault, if those before it do not. -/
def FailsAt (code : List Instr) (index : Nat) (fault : Fault) : Prop :=
  ∃ i, code[index]? = some i ∧ i.FailsBehind (code.take index) fault

/-- The empty program leaves no operand. -/
@[simp] theorem depth_nil : depth [] = 0 := rfl

/-- One more instruction adds its gain to the depth. -/
theorem depth_concat (code : List Instr) (i : Instr) :
    depth (code ++ [i]) = depth code + i.opcode.gain := by
  simp only [depth, List.countP_append, List.countP_singleton]
  cases i.opcode <;> simp [Opcode.isPush, Opcode.isBinary, Opcode.gain] <;> omega

/-- One more instruction transforms the operands that were left. -/
theorem operands_concat (code : List Instr) (i : Instr) :
    operands (code ++ [i]) = i.opcode.transform (operands code) := by
  simp [operands, List.foldl_append]

/-- Whether an instruction fails depends only on the program up to it. -/
theorem FailsAt.append {code : List Instr} {index : Nat} {fault : Fault} (h : FailsAt code index fault)
    (more : List Instr) : FailsAt (code ++ more) index fault := by
  obtain ⟨i, hi, hfails⟩ := h
  have hindex : index < code.length := (List.getElem?_eq_some_iff.mp hi).1
  refine ⟨i, ?_, ?_⟩
  · rw [List.getElem?_append_left hindex, hi]
  · rwa [List.take_append_of_le_length hindex.le]

/-- A program whose last instruction fails behind the others fails there. -/
theorem failsAt_concat {code : List Instr} {i : Instr} {fault : Fault} (h : i.FailsBehind code fault) :
    FailsAt (code ++ [i]) code.length fault :=
  ⟨i, by simp, by rwa [List.take_left]⟩

/-! ## One instruction -/

/-- An operation whose arithmetic cannot fail lacks operands exactly if there are less than two. -/
theorem Instr.combine_eq_error_iff (i : Instr) (f : Float → Float → Float) {stack : List Float} {fault : Fault} :
    i.combine (fun left right => .ok (f left right)) stack = .error fault ↔
      stack.length < 2 ∧ i.underflow = fault := by
  match stack with
  | [] | [_] => simp [combine]
  | right :: left :: rest =>
      have hlong : ¬rest.length + 1 + 1 < 2 := by omega
      simp [combine, Except.map, hlong]

/-- A division lacks operands, or its right operand is zero. -/
theorem Instr.combine_divide_eq_error_iff (i : Instr) {stack : List Float} {fault : Fault} :
    i.combine i.divide stack = .error fault ↔ (stack.length < 2 ∧ i.underflow = fault) ∨
      2 ≤ stack.length ∧ (∃ right ∈ stack.head?, (right == 0) = true) ∧
        (⟨.divisionByZero, i.pos⟩ : Fault) = fault := by
  match stack with
  | [] | [_] => simp [combine]
  | right :: left :: rest =>
      have hlong : ¬rest.length + 1 + 1 < 2 := by omega
      by_cases hzero : (right == 0) = true
      · simp [combine, divide, hzero, Except.map, hlong]
      · simp [combine, divide, hzero, Except.map, hlong]

/-- On the operands that a program leaves, an instruction fails exactly with the faults that are told of it. -/
theorem Instr.step_eq_error_iff (i : Instr) {before : List Instr} {fault : Fault}
    (hdepth : ((operands before).length : Int) = depth before) :
    i.step (operands before) = .error fault ↔ i.FailsBehind before fault := by
  constructor
  · intro h
    obtain ⟨opcode, pos⟩ := i
    cases opcode with
    | push value => cases h
    | foreign label description =>
        cases h
        exact .unknown rfl
    | neg =>
        cases hoperands : operands before with
        | nil =>
            rw [hoperands] at h hdepth
            cases h
            exact .belowOne rfl (by simp only [List.length_nil] at hdepth; omega)
        | cons operand rest =>
            rw [hoperands] at h
            cases h
    | add | sub | mul =>
        obtain ⟨hshort, rfl⟩ := (combine_eq_error_iff _ _).mp h
        exact .belowTwo rfl (by omega)
    | div =>
        rcases (combine_divide_eq_error_iff _).mp h with ⟨hshort, rfl⟩ | ⟨htwo, ⟨right, hright, hzero⟩, rfl⟩
        · exact .belowTwo rfl (by omega)
        · exact .zeroDivisor rfl (by omega) hright hzero
  · rintro h
    obtain ⟨opcode, pos⟩ := i
    cases h with
    | @unknown label description h =>
        cases h
        rfl
    | belowTwo h hshort =>
        have hlength : (operands before).length < 2 := by omega
        cases opcode with
        | push value | neg | foreign label description => cases h
        | add | sub | mul => exact (combine_eq_error_iff _ _).mpr ⟨hlength, rfl⟩
        | div => exact (combine_divide_eq_error_iff _).mpr (.inl ⟨hlength, rfl⟩)
    | belowOne h hshort =>
        cases h
        have hnil : operands before = [] := List.length_eq_zero_iff.mp (by omega)
        rw [hnil]
        rfl
    | @zeroDivisor right h htwo hright hzero =>
        cases h
        exact (combine_divide_eq_error_iff _).mpr (.inr ⟨by omega, ⟨right, hright, hzero⟩, rfl⟩)

/-- An instruction that succeeds does its arithmetic. -/
theorem Instr.eq_transform_of_step {i : Instr} {stack next : List Float} (h : i.step stack = .ok next) :
    next = i.opcode.transform stack := by
  obtain ⟨opcode, pos⟩ := i
  cases opcode with
  | push value => cases h; rfl
  | foreign label description => cases h
  | neg =>
      cases stack with
      | nil => cases h
      | cons operand rest => cases h; rfl
  | add | sub | mul =>
      match stack with
      | [] | [_] => cases h
      | right :: left :: rest => cases h; rfl
  | div =>
      match stack with
      | [] | [_] => cases h
      | right :: left :: rest =>
          obtain ⟨value, hvalue, rfl⟩ := Outcome.map_eq_ok_iff.mp h
          unfold Instr.divide at hvalue
          split at hvalue
          · cases hvalue
          · cases hvalue
            rfl

/-- An instruction that succeeds leaves an operand. -/
theorem Instr.ne_nil_of_step {i : Instr} {stack next : List Float} (h : i.step stack = .ok next) : next ≠ [] := by
  obtain ⟨opcode, pos⟩ := i
  have hlength := Instr.length_of_step h
  rintro rfl
  cases opcode with
  | foreign label description => cases h
  | _ =>
      simp only [Opcode.needs, Opcode.gain, List.length_nil] at hlength
      omega

/-- An instruction that does not fail behind a program does its arithmetic on the operands left by it. -/
theorem Instr.step_operands {before : List Instr} {i : Instr}
    (hdepth : ((operands before).length : Int) = depth before) (h : ∀ fault, ¬i.FailsBehind before fault) :
    i.step (operands before) = .ok (operands (before ++ [i])) := by
  cases hstep : i.step (operands before) with
  | error fault => exact absurd ((i.step_eq_error_iff hdepth).mp hstep) (h fault)
  | ok next => rw [operands_concat, Instr.eq_transform_of_step hstep]

/-! ## The run of a program -/

/-- As long as no instruction fails, the stack holds the operands that are told, as many as are counted, and at
least one once there was an instruction. -/
theorem runProgram_operands {code : List Instr} (h : ∀ index fault, ¬FailsAt code index fault) :
    runProgram [] code = .ok (operands code) ∧ ((operands code).length : Int) = depth code ∧
      (code ≠ [] → operands code ≠ []) := by
  induction code using List.reverseRecOn with
  | nil => exact ⟨rfl, rfl, fun hne => absurd rfl hne⟩
  | append_singleton code i ih =>
      obtain ⟨hrun, hdepth, -⟩ := ih fun index fault hfails => h index fault (hfails.append [i])
      have hstep := Instr.step_operands hdepth fun fault hfails => h code.length fault (failsAt_concat hfails)
      have hlength := (Instr.length_of_step hstep).2
      refine ⟨?_, ?_, fun _ => Instr.ne_nil_of_step hstep⟩
      · rw [runProgram_append, hrun]
        simp only [Except.bind, runProgram, hstep]
      · rw [depth_concat]
        omega

/-- The first instruction that fails decides the outcome. -/
theorem execute_eq_error_of_isLeast {code : List Instr} {index : Nat} {fault : Fault}
    (hleast : IsLeast {index | ∃ fault, FailsAt code index fault} index) (h : FailsAt code index fault) :
    execute code = .error fault := by
  obtain ⟨i, hi, hfails⟩ := h
  have hsplit : code = code.take index ++ i :: code.drop (index + 1) := by
    obtain ⟨hindex, rfl⟩ := List.getElem?_eq_some_iff.mp hi
    rw [← List.drop_eq_getElem_cons hindex, List.take_append_drop]
  -- What fails in front of the first failing instruction would fail in the whole program.
  have hbefore : ∀ earlier fault, ¬FailsAt (code.take index) earlier fault := by
    intro earlier fault hearlier
    have hlt : earlier < (code.take index).length := by
      obtain ⟨j, hj, -⟩ := hearlier
      exact (List.getElem?_eq_some_iff.mp hj).1
    have hwhole := hearlier.append (code.drop index)
    rw [List.take_append_drop] at hwhole
    have hle : index ≤ earlier := hleast.2 ⟨fault, hwhole⟩
    have hshort : (code.take index).length ≤ index := List.length_take_le index code
    omega
  obtain ⟨hrun, hdepth, -⟩ := runProgram_operands hbefore
  have hstep : i.step (operands (code.take index)) = .error fault := (i.step_eq_error_iff hdepth).mpr hfails
  rw [execute, hsplit, runProgram_append, hrun]
  simp only [Except.bind, runProgram, hstep]

/-- Without a failing instruction, the number of operands decides the outcome. -/
theorem execute_cases {code : List Instr} (h : ∀ index fault, ¬FailsAt code index fault) :
    code = [] ∨ (depth code = 1 ∧ ∃ value, operands code = [value] ∧ execute code = .ok value) ∨
      (2 ≤ depth code ∧ execute code = .error ⟨.excessValues (depth code), none⟩) := by
  obtain ⟨hrun, hdepth, hne⟩ := runProgram_operands h
  have hresult : execute code = stackResult (operands code) := by
    rw [execute, hrun]
    rfl
  rw [hresult, ← hdepth]
  generalize operands code = stack at hne ⊢
  cases stack with
  | nil => exact .inl (by_contra fun hcode => hne hcode rfl)
  | cons top rest =>
      cases rest with
      | nil => exact .inr (.inl ⟨rfl, top, rfl, rfl⟩)
      | cons second rest =>
          refine .inr (.inr ⟨?_, rfl⟩)
          simp only [List.length_cons]
          omega

/-- No instruction is reported as the end of the program. -/
theorem FailsAt.cause_ne_endOfProgram {code : List Instr} {index : Nat} {fault : Fault}
    (h : FailsAt code index fault) : fault.cause ≠ .stackUnderflow "end of program" := by
  obtain ⟨⟨opcode, pos⟩, -, hfails⟩ := h
  cases hfails with
  | unknown h | zeroDivisor h => simp
  | belowTwo h => cases opcode <;> simp [Opcode.name, Opcode.isBinary] at h ⊢
  | belowOne h => cases h; simp [Opcode.name]

/-- A program fails at its first failing instruction, with the fault of that instruction. Without one it
returns a value if one operand is left, and reports the number of operands if there are more. It runs out of
operands at its end only if it is empty. -/
theorem execute_outcome_by_depth (code : List Instr) :
    (∀ index fault, IsLeast {index | ∃ fault, FailsAt code index fault} index → FailsAt code index fault →
      execute code = .error fault) ∧
    ((∀ index fault, ¬FailsAt code index fault) →
      ((∃ value, execute code = .ok value) ↔ depth code = 1) ∧
      (∀ value, execute code = .ok value → operands code = [value]) ∧
      (2 ≤ depth code → execute code = .error ⟨.excessValues (depth code), none⟩) ∧
      (code ≠ [] → 1 ≤ depth code)) ∧
    ((∃ pos, execute code = .error ⟨.stackUnderflow "end of program", pos⟩) ↔ code = []) := by
  classical
  refine ⟨fun index fault => execute_eq_error_of_isLeast, fun h => ?_, ?_, ?_⟩
  · rcases execute_cases h with rfl | ⟨hone, result, hresult, hexecute⟩ | ⟨hmore, hexecute⟩
    · simp [execute, runProgram, stackResult, Except.bind]
    · rw [hexecute, hresult]
      refine ⟨⟨fun _ => hone, fun _ => ⟨result, rfl⟩⟩, ?_, by omega, by omega⟩
      rintro value ⟨⟩
      rfl
    · rw [hexecute]
      refine ⟨⟨?_, by omega⟩, ?_, fun _ => rfl, by omega⟩
      · rintro ⟨value, ⟨⟩⟩
      · rintro value ⟨⟩
  · rintro ⟨pos, hend⟩
    by_cases hfails : ∃ index, ∃ fault, FailsAt code index fault
    · obtain ⟨fault, hfault⟩ := Nat.find_spec hfails
      rw [execute_eq_error_of_isLeast (Nat.isLeast_find hfails) hfault] at hend
      cases hend
      exact absurd rfl hfault.cause_ne_endOfProgram
    · rcases execute_cases (by simpa using hfails) with rfl | ⟨-, result, -, hexecute⟩ | ⟨-, hexecute⟩
      · rfl
      · rw [hexecute] at hend
        cases hend
      · rw [hexecute] at hend
        cases hend
  · rintro rfl
    exact ⟨none, rfl⟩

/-- Of a division by zero, an addition that lacks an operand and an unknown instruction, the one that comes
first is reported. -/
theorem execute_outcome_by_depth_three_failures :
    let code : List Instr := [⟨.push 6, none⟩, ⟨.push 0, none⟩, ⟨.div, some ⟨1, 2⟩⟩, ⟨.add, some ⟨1, 4⟩⟩,
      ⟨.foreign "halt" "Halt()", none⟩]
    IsLeast {index | ∃ fault, FailsAt code index fault} 2 ∧ FailsAt code 2 ⟨.divisionByZero, some ⟨1, 2⟩⟩ ∧
      execute code = .error ⟨.divisionByZero, some ⟨1, 2⟩⟩ := by
  intro code
  have hdivision : FailsAt code 2 ⟨.divisionByZero, some ⟨1, 2⟩⟩ :=
    ⟨_, rfl, .zeroDivisor rfl (by decide) rfl (by decide)⟩
  have hleast : IsLeast {index | ∃ fault, FailsAt code index fault} 2 := by
    refine ⟨⟨_, hdivision⟩, ?_⟩
    rintro index ⟨fault, i, hi, hfails⟩
    match index with
    | 0 | 1 =>
        -- A push never fails.
        cases hi
        cases hfails <;> contradiction
    | index + 2 => omega
  exact ⟨hleast, hdivision, (execute_outcome_by_depth code).1 2 _ hleast hdivision⟩

end Calculator
