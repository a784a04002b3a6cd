import Calculator.Text.Line
import Mathlib.Data.List.TakeWhile

/-!
# Cutting a text into its lines

A text made of lines that hold no line break, each followed by a newline, is cut into those lines. A
text is cut independently of what stands before the line that it starts with, and one that joins such lines by
newlines is cut into them, too.
-/

set_option autoImplicit false

namespace Calculator.Text

/-- The text made of some lines, each followed by a newline. -/
def unlines (lines : List (List Char)) : List Char := lines.flatMap (· ++ ['\n'])

/-- A text without a carriage return has unified newlines. -/
theorem unifyNewlines_eq_self {cs : List Char} (h : '\r' ∉ cs) : unifyNewlines cs = cs := by
  induction cs with
  | nil => rfl
  | cons c cs ih =>
      have hc : c ≠ '\r' := fun hc => h (by simp [hc])
      have hcs : '\r' ∉ cs := fun hcs => h (by simp [hcs])
      rw [unifyNewlines, if_neg hc, ih hcs]
      intro rest hreturn
      exact absurd hreturn hc

/-- What stands before the first newline holds none. -/
theorem newline_notMem_takeWhile (cs : List Char) : '\n' ∉ cs.takeWhile (· != '\n') := by
  intro hmem
  simpa using List.mem_takeWhile_imp hmem

/-- From the first newline on, there is nothing or a newline. -/
theorem dropWhile_ne_newline_cases (cs : List Char) :
    cs.dropWhile (· != '\n') = [] ∨ (cs.dropWhile (· != '\n')).head? = some '\n' := by
  cases hrest : cs.dropWhile (· != '\n') with
  | nil => exact .inl rfl
  | cons c more =>
      have hc := List.head?_dropWhile_not (· != '\n') cs
      rw [hrest] at hc
      exact .inr (by simpa using hc)

/-- A line is cut off at the first break. -/
theorem linesBy_append_break {isBreak : Char → Bool} {line : List Char} {mark : Char}
    (hline : ∀ c ∈ line, isBreak c = false) (hmark : isBreak mark = true) (rest : List Char) :
    linesBy isBreak (line ++ mark :: rest) = line :: linesBy isBreak rest := by
  induction line with
  | nil => simp [linesBy, hmark]
  | cons c line ih =>
      have hc : isBreak c = false := hline c (by simp)
      have htail := ih fun d hd => hline d (by simp [hd])
      simp [linesBy, hc, htail]

/-- Unbroken lines, each with a newline, have unified newlines. -/
theorem unifyNewlines_unlines {lines : List (List Char)}
    (h : ∀ line ∈ lines, ∀ c ∈ line, isLineBreak c = false) :
    unifyNewlines (unlines lines) = unlines lines := by
  apply unifyNewlines_eq_self
  intro hmem
  obtain ⟨line, hline, hmem⟩ := List.mem_flatMap.mp hmem
  rcases List.mem_append.mp hmem with hmem | hmem
  · have hbreak := h line hline '\r' hmem
    revert hbreak
    decide
  · revert hmem
    decide

/-- Unbroken lines, each with a newline, are cut into these lines. -/
theorem physicalLines_unlines {lines : List (List Char)}
    (h : ∀ line ∈ lines, ∀ c ∈ line, isLineBreak c = false) :
    physicalLines (unlines lines) = lines := by
  rw [physicalLines, unifyNewlines_unlines h]
  induction lines with
  | nil => rfl
  | cons line lines ih =>
      have hnewline : isLineBreak '\n' = true := by decide
      have hsplit : unlines (line :: lines) = line ++ '\n' :: unlines lines := by
        simp [unlines]
      rw [hsplit, linesBy_append_break (h line (by simp)) hnewline]
      rw [ih fun line hline => h line (by simp [hline])]

/-- Newlines are unified part by part, unless a cut divides a carriage return and a newline. -/
theorem unifyNewlines_append {before : List Char} (h : before.getLast? ≠ some '\r')
    (rest : List Char) :
    unifyNewlines (before ++ rest) = unifyNewlines before ++ unifyNewlines rest := by
  fun_induction unifyNewlines before with
  | case1 => rfl
  | case2 cs ih =>
      have hcs : cs.getLast? ≠ some '\r' := by
        intro hlast
        exact h (by simp [List.getLast?_cons, hlast])
      simp only [List.cons_append, unifyNewlines, ih hcs]
  | case3 c cs hpair ih =>
      -- A carriage return is not the last character, so what follows it is known.
      have hapart : c = '\r' → ∀ more, cs ++ rest ≠ '\n' :: more := by
        rintro rfl more hmore
        cases cs with
        | nil => exact h rfl
        | cons d cs =>
            rw [List.cons_append, List.cons.injEq] at hmore
            exact hpair cs rfl (by rw [hmore.1])
      have hcs : cs.getLast? ≠ some '\r' := by
        intro hlast
        exact h (by simp [List.getLast?_cons, hlast])
      rw [List.cons_append, unifyNewlines, ih hcs, List.cons_append]
      exact fun more hc hmore => hapart hc more hmore

/-- Only the empty text has no lines. -/
theorem linesBy_eq_nil_iff {isBreak : Char → Bool} {cs : List Char} :
    linesBy isBreak cs = [] ↔ cs = [] := by
  cases cs with
  | nil => simp [linesBy]
  | cons c cs =>
      unfold linesBy
      split
      · simp
      · split <;> simp

/-- A line holds no character that ends one. -/
theorem not_isBreak_of_mem_linesBy {isBreak : Char → Bool} {cs line : List Char} {c : Char}
    (hline : line ∈ linesBy isBreak cs) (hc : c ∈ line) : isBreak c = false := by
  induction cs generalizing line with
  | nil => cases hline
  | cons d cs ih =>
      unfold linesBy at hline
      split at hline
      · rcases List.mem_cons.mp hline with rfl | hline
        · cases hc
        · exact ih hline hc
      · next hd =>
        have hd : isBreak d = false := Bool.eq_false_iff.mpr hd
        cases hlines : linesBy isBreak cs with
        | nil =>
            rw [hlines, List.mem_singleton] at hline
            subst hline
            obtain rfl := List.mem_singleton.mp hc
            exact hd
        | cons first lines =>
            rw [hlines] at hline ih
            rcases List.mem_cons.mp hline with rfl | hline
            · rcases List.mem_cons.mp hc with rfl | hc
              · exact hd
              · exact ih List.mem_cons_self hc
            · exact ih (List.mem_cons_of_mem first hline) hc

/-- A text that is cut behind a break has the lines of both parts. -/
theorem linesBy_append {isBreak : Char → Bool} {before : List Char}
    (h : ∀ c ∈ before.getLast?, isBreak c = true) (rest : List Char) :
    linesBy isBreak (before ++ rest) = linesBy isBreak before ++ linesBy isBreak rest := by
  induction before with
  | nil => rfl
  | cons c cs ih =>
      have hcs : ∀ d ∈ cs.getLast?, isBreak d = true := by
        intro d hd
        rw [Option.mem_def] at hd
        exact h d (by simp [List.getLast?_cons, hd])
      have hrest := ih hcs
      by_cases hc : isBreak c = true
      · simp [linesBy, hc, hrest]
      · cases hlines : linesBy isBreak cs with
        | nil =>
            rw [linesBy_eq_nil_iff] at hlines
            subst hlines
            exact absurd (h c rfl) hc
        | cons line lines => simp [linesBy, hc, hrest, hlines]

/-- A text without a break is one line. -/
theorem linesBy_of_unbroken {isBreak : Char → Bool} {line : List Char} (hne : line ≠ [])
    (hline : ∀ c ∈ line, isBreak c = false) : linesBy isBreak line = [line] := by
  induction line with
  | nil => exact absurd rfl hne
  | cons c line ih =>
      have hc : isBreak c = false := hline c List.mem_cons_self
      cases line with
      | nil => simp [linesBy, hc]
      | cons d line =>
          have htail := ih (by simp) fun e he => hline e (List.mem_cons_of_mem c he)
          rw [linesBy, if_neg (by simp [hc]), htail]

/-- A text that ends with a newline does so after unifying newlines. -/
theorem getLast?_unifyNewlines {cs : List Char} (h : cs.getLast? = some '\n') :
    (unifyNewlines cs).getLast? = some '\n' := by
  fun_induction unifyNewlines cs with
  | case1 => cases h
  | case2 cs ih =>
      cases cs with
      | nil => rfl
      | cons c cs =>
          have hlast := ih (by simpa [List.getLast?_cons] using h)
          simp [List.getLast?_cons, hlast]
  | case3 c cs hpair ih =>
      cases cs with
      | nil =>
          cases h
          rfl
      | cons d cs =>
          have hlast := ih (by simpa [List.getLast?_cons] using h)
          simp [List.getLast?_cons, hlast]

/-- What stands before a newline is cut into lines on its own. -/
theorem physicalLines_append {before : List Char} (h : before = [] ∨ before.getLast? = some '\n')
    (rest : List Char) :
    physicalLines (before ++ rest) = physicalLines before ++ physicalLines rest := by
  rcases h with rfl | hlast
  · rfl
  · unfold physicalLines
    rw [unifyNewlines_append (by rw [hlast]; decide)]
    apply linesBy_append
    intro c hc
    rw [getLast?_unifyNewlines hlast] at hc
    cases hc
    decide

/-- A line without a line break, followed by a newline or the end, is the first one. -/
theorem physicalLines_line_append {line after : List Char}
    (hline : ∀ c ∈ line, isLineBreak c = false) (hafter : after = [] ∨ after.head? = some '\n')
    (hne : line ++ after ≠ []) : ∃ later, physicalLines (line ++ after) = line :: later := by
  have hreturn : '\r' ∉ line := by
    intro hmem
    exact absurd (hline '\r' hmem) (by decide)
  have hlast : line.getLast? ≠ some '\r' := by
    intro hlast
    exact hreturn (List.mem_of_getLast? hlast)
  rw [physicalLines, unifyNewlines_append hlast, unifyNewlines_eq_self hreturn]
  cases after with
  | nil =>
      rw [List.append_nil] at hne
      exact ⟨[], by rw [unifyNewlines, List.append_nil, linesBy_of_unbroken hne hline]⟩
  | cons c more =>
      obtain rfl : c = '\n' := by simpa using hafter
      have hnewline : unifyNewlines ('\n' :: more) = '\n' :: unifyNewlines more := by
        rw [unifyNewlines]
        · rfl
        · intro cs hc
          cases hc
      rw [hnewline, linesBy_append_break hline (by decide)]
      exact ⟨_, rfl⟩

/-! ## Lines joined by newlines -/

/-- A text without a line break is one physical line. -/
theorem physicalLines_of_unbroken {line : List Char} (hne : line ≠ [])
    (hline : ∀ c ∈ line, isLineBreak c = false) : physicalLines line = [line] := by
  have hreturn : '\r' ∉ line := fun hmem => absurd (hline '\r' hmem) (by decide)
  rw [physicalLines, unifyNewlines_eq_self hreturn, linesBy_of_unbroken hne hline]

/-- A physical line is cut off at the first newline. -/
theorem physicalLines_append_newline {line : List Char} (hline : ∀ c ∈ line, isLineBreak c = false)
    (rest : List Char) : physicalLines (line ++ '\n' :: rest) = line :: physicalLines rest := by
  have hfirst : physicalLines (line ++ ['\n']) = [line] := by
    have hlines := physicalLines_unlines (List.forall_mem_singleton.mpr hline)
    rwa [unlines, List.flatMap_singleton] at hlines
  rw [List.append_cons, physicalLines_append (.inr List.getLast?_concat), hfirst, List.singleton_append]

/-- A text that joins lines by newlines is cut into those lines, if none of them is empty. -/
theorem physicalLines_intercalate {lines : List (List Char)} (hne : ∀ line ∈ lines, line ≠ [])
    (h : ∀ line ∈ lines, ∀ c ∈ line, isLineBreak c = false) :
    physicalLines (['\n'].intercalate lines) = lines := by
  induction lines with
  | nil => rfl
  | cons line lines ih =>
      obtain ⟨hline, hlines⟩ := List.forall_mem_cons.mp h
      obtain ⟨hfirst, hrest⟩ := List.forall_mem_cons.mp hne
      cases lines with
      | nil =>
          rw [List.intercalate_singleton]
          exact physicalLines_of_unbroken hfirst hline
      | cons next lines =>
          rw [List.intercalate_cons_cons, List.append_assoc, List.singleton_append,
            physicalLines_append_newline hline, ih hrest hlines]

end Calculator.Text
