import Calculator.Proofs.Position.Offset

/-!
# The order of positions

Every offset of a text has a position: its line counts the newlines before it, its column counts from
the start of that line. A run of characters leads from the start to the position of its length
(`along_start_eq_ofOffset`), and a run that is not empty leads to a later position (`before_along`).
-/

set_option autoImplicit false

namespace Calculator

namespace Position

/-- The position of an offset in a text. -/
def ofOffset (cs : List Char) (offset : Nat) : Position :=
  let newlines := (cs.take offset).count '\n'
  ⟨1 + newlines, (offset : Int) - lineStart newlines cs + 1⟩

/-- A position comes before another if its line does, or its column on the same line. -/
def Before (p q : Position) : Prop := p.line < q.line ∨ p.line = q.line ∧ p.column < q.column

instance (p q : Position) : Decidable (p.Before q) :=
  inferInstanceAs (Decidable (p.line < q.line ∨ p.line = q.line ∧ p.column < q.column))

/-- Positions are ordered transitively. -/
theorem Before.trans {p q r : Position} (hpq : p.Before q) (hqr : q.Before r) : p.Before r := by
  simp only [Before] at *
  omega

/-- A character leads to a later position. -/
theorem before_after (p : Position) (c : Char) : p.Before (p.after c) := by
  by_cases hc : c = '\n'
  · subst hc
    rw [after_newline]
    exact .inl (Int.lt_succ p.line)
  · rw [after_of_ne hc]
    exact .inr ⟨rfl, Int.lt_succ p.column⟩

/-- Passing characters leads to a later position. -/
theorem before_along {cs : List Char} (h : cs ≠ []) (p : Position) : p.Before (p.along cs) := by
  induction cs generalizing p with
  | nil => exact absurd rfl h
  | cons c cs ih =>
      rw [along_cons]
      by_cases hcs : cs = []
      · subst hcs
        exact before_after p c
      · exact (before_after p c).trans (ih hcs (p.after c))

/-- Columns count from one. -/
theorem one_le_column_along {p : Position} (h : 1 ≤ p.column) (cs : List Char) :
    1 ≤ (p.along cs).column := by
  induction cs generalizing p with
  | nil => exact h
  | cons c cs ih =>
      rw [along_cons]
      apply ih
      by_cases hc : c = '\n'
      · subst hc
        exact Int.le_of_eq (congrArg column (after_newline p)).symm
      · rw [after_of_ne hc]
        simp only
        omega

/-- The position after a run of characters is that of the length of the run. -/
theorem along_start_eq_ofOffset (passed rest : List Char) :
    start.along passed = ofOffset (passed ++ rest) passed.length := by
  have hline := line_along start passed
  have hcolumn := one_le_column_along (p := start) (by decide) passed
  have hoffset := lineStart_along start passed rest
  have hfirst : start.line = 1 ∧ start.column = 1 := ⟨rfl, rfl⟩
  simp only [hfirst, ite_self] at hline hoffset
  rw [ofOffset, List.take_left]
  generalize start.along passed = reached at hline hcolumn hoffset ⊢
  cases reached with
  | mk line column =>
      simp only [mk.injEq] at hline hcolumn hoffset ⊢
      omega

end Position

end Calculator
