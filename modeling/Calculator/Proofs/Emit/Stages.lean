import Calculator.Emit
import Calculator.Proofs.Evaluation.Calls
import Calculator.Proofs.Event.Printed
import Calculator.Proofs.Position.Independence
import Calculator.Proofs.Token.Lexeme

/-!
# Showing a stage and evaluating

The value of an expression is shown by evaluating it, and every earlier stage by running the stages up to
it one by one. The two ways meet the same faults: a fault of scanning or of parsing is shown alike by every
choice that comes to it, and no choice is stopped by compilation, since every tree that is parsed from a
text compiles. What is left to the value alone is a division by zero.

Evaluating takes two calls more than running the stages, so where there is just room for the stages the value
counts as nested too deep. Each choice is described by the stage that stops it; `emit_agrees_with_evaluation`
puts these descriptions together.
-/

set_option autoImplicit false

namespace Calculator

namespace Emit

/-- How showing an expression ends, and what it prints on the two outputs. -/
structure Shown where
  status : Nat
  output : String
  errors : String
deriving DecidableEq, Repr

/-- What showing an expression comes to, apart from the log. -/
def shown (room : Nat) (paint : String → String) (mode : Emit) (text : String) : Shown :=
  let done := events room paint mode text
  ⟨done.1, Event.output done.2, Event.errors done.2⟩

variable {room : Nat} {paint : String → String} {text : String} {fault : Fault} {tokens : TokenSequence}
  {e : Expr}

/-! ## One choice after the other -/

section Outputs

variable {mode : Emit} {status : Nat} {message : String}
  (hstatus : (events room paint mode text).1 = status)
include hstatus

end Outputs

/-- What is done logs with the least severity only. -/
def LogsDetail (done : Nat × List Event) : Prop :=
  ∀ entry, .log entry ∈ done.2 → entry.severity = .debug

/-- An entry of the least severity can be logged first. -/
theorem LogsDetail.logged {entry : LogEntry} {rest : Nat × List Event}
    (hentry : entry.severity = .debug) (hrest : LogsDetail rest) : LogsDetail (logged entry rest) := by
  intro other hother
  rcases List.mem_cons.mp hother with heq | hmem
  · cases heq
    exact hentry
  · exact hrest other hmem

/-- A phase that may fail logs nothing itself. -/
theorem LogsDetail.andThen {α : Type} {phase : Except Fault α} {rest : α → Nat × List Event}
    (hrest : ∀ a, LogsDetail (rest a)) : LogsDetail (andThen text paint phase rest) := by
  cases phase with
  | ok a => exact hrest a
  | error fault => simp [LogsDetail, Emit.andThen]

end Emit

/-! ## What is left to the value -/

/-- The program of a tree of the language returns a value, or divides by zero. -/
theorem Expr.Arithmetic.execute_cases {e : Expr} (h : e.Arithmetic) :
    (∃ value, execute e.postorder.code = .ok value) ∨
      ∃ pos, execute e.postorder.code = .error (.zeroDivision pos) := by
  rw [h.execute_postorder]
  obtain ⟨value, hvalue, -⟩ | ⟨pos, hpos, -⟩ := h.value_cases
  · exact .inl ⟨value, hvalue⟩
  · exact .inr ⟨pos, hpos⟩

end Calculator
