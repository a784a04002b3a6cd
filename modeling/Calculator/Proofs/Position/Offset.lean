import Calculator.Position
import Mathlib.Data.List.Basic

/-!
# Positions as offsets

A position is a line and a column; an offset counts characters from the start of a text. Reading a
position as an offset skips as many newlines as lines lie before it, and then as many characters as
columns. The position after a run of characters is read back as the length of that run.
-/

set_option autoImplicit false

namespace Calculator

namespace Position

/-- How many characters stand before the line that comes after some newlines. -/
def lineStart : Nat → List Char → Nat
  | 0, _ => 0
  | _ + 1, [] => 0
  | n + 1, c :: cs => 1 + lineStart (if c = '\n' then n else n + 1) cs

/-- The offset in a text that a position stands for. -/
def offsetIn (cs : List Char) (p : Position) : Nat :=
  lineStart (p.line - 1).toNat cs + (p.column - 1).toNat

/-- `p.Reaches cs q rest`: where the text `cs` starts at position `p`, its end part `rest` starts at
position `q`. -/
def Reaches (p : Position) (cs : List Char) (q : Position) (rest : List Char) : Prop :=
  ∃ passed, cs = passed ++ rest ∧ q = p.along passed

/-- Nothing needs to be passed to reach the start. -/
theorem Reaches.refl (p : Position) (cs : List Char) : p.Reaches cs p cs := ⟨[], rfl, rfl⟩

/-- What is reached behind some characters is reached by passing them first. -/
theorem Reaches.append {p q : Position} {passed cs rest : List Char}
    (h : (p.along passed).Reaches cs q rest) : p.Reaches (passed ++ cs) q rest := by
  obtain ⟨more, rfl, rfl⟩ := h
  exact ⟨passed ++ more, by simp, (along_append p passed more).symm⟩

/-- What is reached behind a character is reached by passing it first. -/
theorem Reaches.cons {p q : Position} {c : Char} {cs rest : List Char}
    (h : (p.after c).Reaches cs q rest) : p.Reaches (c :: cs) q rest := by
  have h' : (p.along [c]).Reaches cs q rest := h
  exact h'.append

/-- A newline leads to the start of the next line. -/
theorem after_newline (p : Position) : p.after '\n' = ⟨p.line + 1, 1⟩ := by
  simp [after]

/-- Any other character leads to the next column. -/
theorem after_of_ne {c : Char} (h : c ≠ '\n') (p : Position) :
    p.after c = ⟨p.line, p.column + 1⟩ := by
  simp [after, h]

/-- The line of a position counts the newlines passed. -/
theorem line_along (p : Position) (cs : List Char) :
    (p.along cs).line = p.line + cs.count '\n' := by
  induction cs generalizing p with
  | nil => simp
  | cons c cs ih =>
      rw [along_cons, ih]
      by_cases hc : c = '\n'
      · subst hc
        rw [after_newline, List.count_cons_self]
        push_cast
        omega
      · rw [after_of_ne hc, List.count_cons_of_ne hc]

/-- Without a newline, columns do not go back. -/
theorem column_le_column_along {p : Position} {cs : List Char} (h : cs.count '\n' = 0) :
    p.column ≤ (p.along cs).column := by
  induction cs generalizing p with
  | nil => simp
  | cons c cs ih =>
      have hc : c ≠ '\n' := by
        rintro rfl
        simp at h
      rw [List.count_cons_of_ne hc] at h
      have := ih (p := p.after c) h
      rw [after_of_ne hc] at this
      rw [along_cons, after_of_ne hc]
      simp only at this
      omega

/-- The characters passed are those before the line of the position and those before its column; on
the line where the passage began the columns count from there. -/
theorem lineStart_along (p : Position) (passed rest : List Char) :
    lineStart (passed.count '\n') (passed ++ rest) +
      ((p.along passed).column - if passed.count '\n' = 0 then p.column else 1).toNat =
        passed.length := by
  induction passed generalizing p with
  | nil => simp [lineStart]
  | cons c cs ih =>
      have := ih (p.after c)
      rw [along_cons, List.cons_append, List.length_cons]
      by_cases hc : c = '\n'
      · subst hc
        rw [List.count_cons_self, lineStart]
        rw [after_newline] at this ⊢
        rw [if_neg (Nat.succ_ne_zero _), if_pos rfl]
        simp only [ite_self] at this
        omega
      · rw [List.count_cons_of_ne hc]
        rw [after_of_ne hc] at this ⊢
        cases hcount : cs.count '\n' with
        | zero =>
            -- No newline is passed, so the columns are counted alone.
            have hle := column_le_column_along (p := ⟨p.line, p.column + 1⟩) hcount
            simp only [hcount, lineStart, if_true] at this hle ⊢
            omega
        | succ n =>
            rw [hcount, if_neg (Nat.succ_ne_zero n)] at this
            rw [lineStart, if_neg hc, if_neg (Nat.succ_ne_zero n)]
            omega

/-- The position after a run of characters stands for the length of the run. -/
theorem offsetIn_along_start (passed rest : List Char) :
    (start.along passed).offsetIn (passed ++ rest) = passed.length := by
  have h := lineStart_along start passed rest
  have hline : ((start.along passed).line - 1).toNat = passed.count '\n' := by
    rw [line_along]
    simp only [start]
    omega
  rw [offsetIn, hline]
  simpa [start] using h

/-- The offset of the position reached takes a text apart into what has been passed and the rest. -/
theorem take_drop_offsetIn {cs passed rest : List Char} (h : cs = passed ++ rest) :
    cs.take ((start.along passed).offsetIn cs) = passed ∧
      cs.drop ((start.along passed).offsetIn cs) = rest := by
  rw [h, offsetIn_along_start]
  exact ⟨List.take_left, List.drop_left⟩

end Position

end Calculator
