import Calculator.Program.Execute
import Calculator.Proofs.Outcome

/-!
# Operands on the stack

How many operands a program leaves can be told without running it: a push adds one, an operation on two
operands takes one away. A program is balanced if every instruction finds the operands that it needs, and
one is left in the end.

The machine agrees with the count as long as it goes on (`balancedFrom_of_runProgram`), so a program that
returns a value is balanced.
-/

set_option autoImplicit false

namespace Calculator

/-- How many operands an instruction needs on the stack. -/
def Opcode.needs : Opcode → Nat
  | .push _ | .foreign _ _ => 0
  | .neg => 1
  | .add | .sub | .mul | .div => 2

/-- By how much an instruction changes the number of operands. -/
def Opcode.gain : Opcode → Int
  | .push _ => 1
  | .neg | .foreign _ _ => 0
  | .add | .sub | .mul | .div => -1

/-- How many operands a program adds to those that it starts with. -/
def operandsLeft : List Instr → Int
  | [] => 0
  | i :: code => i.opcode.gain + operandsLeft code

/-- The empty program leaves the stack as it was. -/
@[simp] theorem operandsLeft_nil : operandsLeft [] = 0 := rfl

/-- The gain of the first instruction adds to that of the others. -/
@[simp] theorem operandsLeft_cons (i : Instr) (code : List Instr) :
    operandsLeft (i :: code) = i.opcode.gain + operandsLeft code := rfl

/-- Started with some operands, a program has enough for the next instruction after each of its parts
from the front, and leaves some. -/
structure BalancedFrom (start : Nat) (code : List Instr) (finish : Nat) : Prop where
  enough : ∀ before i after, code = before ++ i :: after →
    (i.opcode.needs : Int) ≤ start + operandsLeft before
  left : (finish : Int) = start + operandsLeft code

/-- Started with no operands, a program has enough for each of its instructions, and leaves one. -/
def IsBalanced (code : List Instr) : Prop := BalancedFrom 0 code 1

namespace BalancedFrom

variable {start finish : Nat} {i : Instr} {code : List Instr}

/-- The empty program is balanced from any height. -/
theorem nil (start : Nat) : BalancedFrom start [] start := by
  constructor
  · intro before i after h
    simp at h
  · simp

/-- An instruction that finds its operands goes before a program that is balanced from there. -/
theorem cons {next : Nat} (hneeds : i.opcode.needs ≤ start)
    (hgain : (next : Int) = start + i.opcode.gain) (h : BalancedFrom next code finish) :
    BalancedFrom start (i :: code) finish := by
  constructor
  · intro before j after hsplit
    rcases List.cons_eq_append_iff.mp hsplit with ⟨rfl, hcode⟩ | ⟨before, rfl, hcode⟩
    · cases hcode
      simpa using hneeds
    · have henough := h.enough before j after hcode
      rw [operandsLeft_cons]
      omega
  · rw [h.left, operandsLeft_cons]
    omega

/-- The first instruction has its operands, and the others start with those that it leaves. -/
theorem of_cons (h : BalancedFrom start (i :: code) finish) :
    i.opcode.needs ≤ start ∧
      ∃ next : Nat, (next : Int) = start + i.opcode.gain ∧ BalancedFrom next code finish := by
  have hneeds : (i.opcode.needs : Int) ≤ start := by simpa using h.enough [] i code rfl
  -- No instruction takes away more than it needs.
  have hgain : 0 ≤ (i.opcode.needs : Int) + i.opcode.gain := by
    cases i.opcode <;> simp [Opcode.needs, Opcode.gain]
  obtain ⟨next, hnext⟩ := Int.eq_ofNat_of_zero_le (show 0 ≤ (start : Int) + i.opcode.gain by omega)
  refine ⟨by omega, next, hnext.symm, ?_, ?_⟩
  · intro before j after hsplit
    have henough := h.enough (i :: before) j after (by rw [hsplit, List.cons_append])
    rw [operandsLeft_cons] at henough
    omega
  · have hleft := h.left
    rw [operandsLeft_cons] at hleft
    omega

end BalancedFrom

/-! ## The machine -/

/-- An operation finds two operands and leaves one. -/
theorem Instr.length_of_combine {i : Instr} {f : Float → Float → Except Fault Float}
    {stack next : List Float} (h : i.combine f stack = .ok next) : stack.length = next.length + 1 ∧
      2 ≤ stack.length := by
  match stack with
  | [] | [_] => cases h
  | right :: left :: rest =>
      obtain ⟨value, -, rfl⟩ := Outcome.map_eq_ok_iff.mp h
      simp

/-- An instruction that succeeds finds what it needs and changes the number of operands by its gain. -/
theorem Instr.length_of_step {i : Instr} {stack next : List Float} (h : i.step stack = .ok next) :
    i.opcode.needs ≤ stack.length ∧ (next.length : Int) = stack.length + i.opcode.gain := by
  obtain ⟨opcode, pos⟩ := i
  cases opcode with
  | push value =>
      cases h
      simp [Opcode.needs, Opcode.gain]
  | add | sub | mul | div =>
      obtain ⟨hlength, htwo⟩ := Instr.length_of_combine h
      simp only [Opcode.needs, Opcode.gain]
      omega
  | neg =>
      cases stack with
      | nil => cases h
      | cons operand rest =>
          cases h
          simp [Opcode.needs, Opcode.gain]
  | foreign label description => cases h

/-- A program that runs to its end has enough operands all along, and leaves as many as are counted. -/
theorem balancedFrom_of_runProgram {stack final : List Float} {code : List Instr}
    (h : runProgram stack code = .ok final) : BalancedFrom stack.length code final.length := by
  induction code generalizing stack with
  | nil =>
      cases h
      exact .nil _
  | cons i code ih =>
      simp only [runProgram] at h
      split at h
      · next next hstep =>
        obtain ⟨hneeds, hgain⟩ := Instr.length_of_step hstep
        exact .cons hneeds hgain (ih h)
      · cases h

/-- A program that returns a value is balanced. -/
theorem isBalanced_of_execute {code : List Instr} {value : Float} (h : execute code = .ok value) :
    IsBalanced code := by
  unfold execute at h
  cases hrun : runProgram [] code with
  | error fault =>
      rw [hrun] at h
      cases h
  | ok final =>
      rw [hrun] at h
      match final with
      | [] | _ :: _ :: _ => cases h
      | [_] => exact balancedFrom_of_runProgram hrun

end Calculator
