/-!
# Outcomes of stages

An outcome is a result or the fault that kept a stage from one. These lemmas take an outcome that was
put together from others apart again.
-/

set_option autoImplicit false

namespace Calculator.Outcome

variable {ε ε' α β : Type}

/-- A function applied to an outcome gives a result exactly if the outcome does. -/
theorem map_eq_ok_iff {x : Except ε α} {f : α → β} {b : β} :
    x.map f = .ok b ↔ ∃ a, x = .ok a ∧ f a = b := by
  cases x <;> simp [Except.map]

/-- A function applied to an outcome leaves its fault. -/
theorem map_eq_error_iff {x : Except ε α} {f : α → β} {fault : ε} :
    x.map f = .error fault ↔ x = .error fault := by
  cases x <;> simp [Except.map]

/-- Two stages in turn meet a fault if the first one does, or the second one on its result. -/
theorem bind_eq_error_iff {x : Except ε α} {f : α → Except ε β} {fault : ε} :
    x.bind f = .error fault ↔ x = .error fault ∨ ∃ a, x = .ok a ∧ f a = .error fault := by
  cases x <;> simp [Except.bind]

end Calculator.Outcome
