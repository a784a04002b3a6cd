import Calculator.Proofs.LogicalLine.Groups

/-!
# Scripts in parts

A script that is cut behind the end of a statement is evaluated part by part. The groups of physical lines are
those of the two parts (`SplitsInto.append`), and the number of the line that a group starts with is the only
thing by which the logical lines of the second part differ (`groupEntries_add`). So the results of the second
part stand further down by the physical lines of the first one and are else the same.
-/

set_option autoImplicit false

namespace Calculator

/-- A script that is empty, or ends with a newline after a line that does not go on. -/
def EndsStatement (script : String) : Prop :=
  script = "" ∨ script.toList.getLast? = some '\n' ∧
    ∀ line ∈ (Text.physicalLines script.toList).getLast?, continues line = false

instance (script : String) : Decidable (EndsStatement script) := inferInstanceAs (Decidable (_ ∨ _))

/-- A logical line that starts some physical lines further down. -/
def LogicalLine.lower (count : Nat) (l : LogicalLine) : LogicalLine := { l with line := l.line + count }

/-- The result of a text that starts some physical lines further down. -/
def Evaluation.lower (count : Nat) (e : Evaluation) : Evaluation := { e with line := e.line + count }

/-! ## Groups and their logical lines -/

/-- Behind a line that does not go on, the groups of more lines are their own. -/
theorem SplitsInto.append {lines more : List (List Char)} {groups later : List (List (List Char))}
    (h : SplitsInto lines groups) (hlast : ∀ line ∈ lines.getLast?, continues line = false)
    (hmore : SplitsInto more later) : SplitsInto (lines ++ more) (groups ++ later) := by
  induction h with
  | none => exact hmore
  | @unfinished group hne h =>
      have hgoes := h (group.getLast hne) (List.getLast_mem hne)
      have hstops := hlast (group.getLast hne) (List.getLast?_eq_getLast_of_ne_nil hne)
      rw [hgoes] at hstops
      cases hstops
  | @finished begun rest last groups hbegun hend h ih =>
      rw [List.append_assoc, List.cons_append, List.cons_append]
      refine .finished hbegun hend (ih ?_)
      intro line hline
      apply hlast
      rw [Option.mem_def] at hline ⊢
      simp [List.getLast?_cons, hline]

/-- The logical lines of further groups are numbered on from the lines of the first ones. -/
theorem groupEntries_append (number : Nat) (groups later : List (List (List Char))) :
    groupEntries number (groups ++ later) =
      groupEntries number groups ++ groupEntries (number + groups.flatten.length) later := by
  induction groups generalizing number with
  | nil => rfl
  | cons group groups ih =>
      rw [List.cons_append, groupEntries, ih, groupEntries, List.append_assoc, List.flatten_cons,
        List.length_append, Nat.add_assoc]

/-- Groups that start further down have their logical lines further down. -/
theorem groupEntries_add (number count : Nat) (groups : List (List (List Char))) :
    groupEntries (number + count) groups = (groupEntries number groups).map (LogicalLine.lower count) := by
  induction groups generalizing number with
  | nil => rfl
  | cons group groups ih =>
      rw [groupEntries, groupEntries, List.map_append, ← ih, Nat.add_right_comm]
      congr 1
      split <;> rfl

/-- The logical lines of a script in two parts are those of the parts, the second ones further down. -/
theorem logicalLines_append {first : String} (h : EndsStatement first) (second : String) :
    logicalLines (first ++ second) = logicalLines first ++
      (logicalLines second).map (LogicalLine.lower (Text.physicalLines first.toList).length) := by
  have hlines : Text.physicalLines (first ++ second).toList =
      Text.physicalLines first.toList ++ Text.physicalLines second.toList := by
    rw [String.toList_append]
    apply Text.physicalLines_append
    rcases h with rfl | ⟨hnewline, -⟩
    · exact .inl rfl
    · exact .inr hnewline
  have hlast : ∀ line ∈ (Text.physicalLines first.toList).getLast?, continues line = false := by
    rcases h with rfl | ⟨-, hlast⟩
    · intro line hline
      cases hline
    · exact hlast
  have hsplit := (splitsInto_lineGroups (Text.physicalLines first.toList)).append hlast
    (splitsInto_lineGroups (Text.physicalLines second.toList))
  rw [← hlines, splitsInto_iff] at hsplit
  rw [logicalLines_eq_groupEntries, ← hsplit, groupEntries_append, groupEntries_add,
    (splitsInto_lineGroups _).flatten_eq, ← logicalLines_eq_groupEntries, ← logicalLines_eq_groupEntries]

/-- A script that is cut behind the end of a statement evaluates part by part, whatever room there is for
calls. The results of the second part have the same texts, values and faults, and the same places within their
texts; they and the reports of their faults are further down by the physical lines of the first part. -/
theorem evaluateLines_append (room : Nat) {first : String} (h : EndsStatement first) (second : String) :
    let count := (Text.physicalLines first.toList).length
    evaluateLines room (first ++ second) =
        evaluateLines room first ++ (evaluateLines room second).map (Evaluation.lower count) ∧
      ∀ e ∈ evaluateLines room second,
        (e.lower count).source = e.source ∧ (e.lower count).outcome = e.outcome ∧
        (e.lower count).line = e.line + count ∧
        ∀ fault, e.outcome = .error fault →
          ((e.lower count).report fault).fault = (e.report fault).fault ∧
          ((e.lower count).report fault).startLine = (e.report fault).startLine + count ∧
          ((e.lower count).report fault).line = (e.report fault).line + count := by
  intro count
  constructor
  · rw [evaluateLines, logicalLines_append h, List.map_append, List.map_map, evaluateLines, evaluateLines,
      List.map_map]
    congr 1
  · intro e he
    refine ⟨rfl, rfl, rfl, fun fault hfault => ⟨rfl, rfl, ?_⟩⟩
    unfold Report.line
    simp only [Evaluation.report, Evaluation.lower]
    split <;> omega

/-- The second part starts after a continued line, a comment behind it and a line of its own. -/
theorem evaluateLines_append_below_continuation :
    let first := "1 \\ ; goes on\n+ 2\n\n"
    let second := "; a note\r3 +\n"
    EndsStatement first ∧ (Text.physicalLines first.toList).length = 3 ∧
      logicalLines second = [⟨"3 +", 2⟩] ∧ logicalLines (first ++ second) = [⟨"1 + 2", 1⟩, ⟨"3 +", 5⟩] ∧
      evaluateLines 1000 (first ++ second) =
        evaluateLines 1000 first ++ (evaluateLines 1000 second).map (Evaluation.lower 3) :=
  ⟨by decide, by decide, by decide, by decide, (evaluateLines_append 1000 (by decide) _).1⟩

end Calculator
