import Calculator.Proofs.LogicalLine.Pieces
import Calculator.Proofs.Text.Line

/-!
# Groups of physical lines

The physical lines of a script fall into groups: lines that go on with the next one, and then a line that does
not. Only the last group may lack that line, where the script ends too early. Every list of lines falls into
groups in exactly one way (`splitsInto_iff`).

The logical lines of a script are those of its groups: one for each group with code, which starts where the
group starts and is made of the pieces of its lines (`collect_eq_entries`). The collector sees one physical line
at a time, so this goes by the lines of a group first, and then by the groups.
-/

set_option autoImplicit false

namespace Calculator

/-! ## How lines fall into groups -/

/-- `SplitsInto lines groups`: the groups are those of the lines. -/
inductive SplitsInto : List (List Char) → List (List (List Char)) → Prop where
  | none : SplitsInto [] []
  /-- The last group, if the script ends with a line that goes on. -/
  | unfinished {group : List (List Char)} (hne : group ≠ []) (h : ∀ line ∈ group, continues line = true) :
      SplitsInto group [group]
  /-- Lines that go on, and a line that does not. -/
  | finished {begun rest : List (List Char)} {last : List Char} {groups : List (List (List Char))}
      (hbegun : ∀ line ∈ begun, continues line = true) (hlast : continues last = false)
      (h : SplitsInto rest groups) : SplitsInto (begun ++ last :: rest) ((begun ++ [last]) :: groups)

/-- The groups of some lines. -/
def lineGroups : List (List Char) → List (List (List Char))
  | [] => []
  | line :: rest =>
    if continues line then
      match lineGroups rest with
      | [] => [[line]]
      | group :: groups => (line :: group) :: groups
    else [line] :: lineGroups rest

/-- The lines split into their groups. -/
theorem splitsInto_lineGroups (lines : List (List Char)) : SplitsInto lines (lineGroups lines) := by
  induction lines with
  | nil => exact .none
  | cons line rest ih =>
      unfold lineGroups
      split
      · next hline =>
        -- The line joins the group that the rest starts with.
        generalize lineGroups rest = groups at ih
        cases ih with
        | none => exact .unfinished (by simp) (by simpa using hline)
        | unfinished hne h => exact .unfinished (by simp) (by simpa using ⟨hline, h⟩)
        | @finished begun later last groups hbegun hlast h =>
            exact @SplitsInto.finished (line :: begun) later last groups (by simpa using ⟨hline, hbegun⟩) hlast h
      · next hline => exact @SplitsInto.finished [] rest line _ (by simp) (Bool.eq_false_iff.mpr hline) ih

/-- Lines that all go on form one group. -/
theorem lineGroups_unfinished {group : List (List Char)} (hne : group ≠ [])
    (h : ∀ line ∈ group, continues line = true) : lineGroups group = [group] := by
  induction group with
  | nil => exact absurd rfl hne
  | cons line group ih =>
      rw [lineGroups, if_pos (h line (by simp))]
      cases group with
      | nil => rfl
      | cons next group => rw [ih (by simp) fun line hline => h line (by simp [hline])]

/-- Lines that go on form a group with the first line that does not. -/
theorem lineGroups_finished {begun : List (List Char)} {last : List Char}
    (hbegun : ∀ line ∈ begun, continues line = true) (hlast : continues last = false)
    (rest : List (List Char)) :
    lineGroups (begun ++ last :: rest) = (begun ++ [last]) :: lineGroups rest := by
  induction begun with
  | nil => simp [lineGroups, hlast]
  | cons line begun ih =>
      rw [List.cons_append, lineGroups, if_pos (hbegun line (by simp)),
        ih fun line hline => hbegun line (by simp [hline])]
      rfl

/-- Lines fall into groups in exactly one way. -/
theorem splitsInto_iff {lines : List (List Char)} {groups : List (List (List Char))} :
    SplitsInto lines groups ↔ groups = lineGroups lines := by
  constructor
  · intro h
    induction h with
    | none => rfl
    | unfinished hne h => rw [lineGroups_unfinished hne h]
    | finished hbegun hlast h ih => rw [lineGroups_finished hbegun hlast, ih]
  · rintro rfl
    exact splitsInto_lineGroups lines

/-- The groups hold the lines in their order. -/
theorem SplitsInto.flatten_eq {lines : List (List Char)} {groups : List (List (List Char))}
    (h : SplitsInto lines groups) : groups.flatten = lines := by
  induction h with
  | none => rfl
  | unfinished hne h => simp
  | finished hbegun hlast h ih => simp [ih]

/-! ## The logical lines of groups -/

/-- The code of a line, without the backslash that ends the code of a line that goes on. -/
def ownCode (line : List Char) : List Char :=
  if continues line then (codePart line).dropLast else codePart line

/-- What a line contributes to a statement: its code without that backslash, or the whole line. -/
def linePiece (line : List Char) : List Char :=
  if continues line then Text.trim (ownCode line) else Text.trim line

/-- Whether some line of a group has code that is not blank. -/
def hasCode (group : List (List Char)) : Bool :=
  group.any fun line => (ownCode line).any fun c => !Text.isBlank c

/-- The text of the pieces of a group that are not empty, with a space between them. -/
def groupText (group : List (List Char)) : List Char :=
  [' '].intercalate ((group.map linePiece).filter (· ≠ []))

/-- The logical lines of some groups: one for each group with code. `number` is the number of the first physical
line of the first group. -/
def groupEntries (number : Nat) : List (List (List Char)) → List LogicalLine
  | [] => []
  | group :: groups =>
    (if hasCode group then [⟨String.ofList (groupText group), number⟩] else []) ++
      groupEntries (number + group.length) groups

/-! ## Pieces of lines -/

/-- The text of a group is its pieces joined. -/
theorem groupText_eq (group : List (List Char)) : groupText group = joinPieces (group.map linePiece) := by
  unfold groupText joinPieces
  congr 2
  funext piece
  cases piece <;> simp

/-- A line that goes on contributes its code without the backslash. -/
theorem linePiece_of_continues {line : List Char} (h : continues line = true) :
    linePiece line = continuedPiece line := by
  simp only [linePiece, ownCode, if_pos h, continuedPiece]

/-- A line that does not go on contributes all of it but the blanks around it. -/
theorem linePiece_of_not_continues {line : List Char} (h : continues line = false) :
    linePiece line = Text.trim line := by
  simp [linePiece, h]

/-- The piece of a line has no blanks around it. -/
theorem trim_linePiece (line : List Char) : Text.trim (linePiece line) = linePiece line := by
  unfold linePiece
  split <;> exact Text.trim_trim _

/-- The characters of the piece of a line are characters of the line. -/
theorem mem_of_mem_linePiece {line : List Char} {c : Char} (h : c ∈ linePiece line) : c ∈ line := by
  have hcode : ∀ c ∈ codePart line, c ∈ line := fun c hc =>
    (List.takeWhile_sublist _).subset (Text.mem_of_mem_trim hc)
  unfold linePiece ownCode at h
  split at h
  · exact hcode c ((List.dropLast_sublist _).subset (Text.mem_of_mem_trim h))
  · exact Text.mem_of_mem_trim h

/-- A piece without a comment is its own code. -/
theorem IsPiece.codePart_eq {p : List Char} (h : IsPiece p) : codePart p = p := by
  rw [codePart, takeWhile_code_eq_self h.code, h.trimmed]

/-- The code of a line's piece is the own code of the line, up to blanks around it. -/
theorem codePart_linePiece (line : List Char) : codePart (linePiece line) = Text.trim (ownCode line) := by
  by_cases h : continues line = true
  · rw [linePiece_of_continues h, (isPiece_continuedPiece line).codePart_eq, ownCode, if_pos h, continuedPiece]
  · rw [linePiece_of_not_continues (Bool.eq_false_iff.mpr h), codePart_trim, ownCode, if_neg h]
    exact (Text.trim_trim _).symm

/-- Nothing is left of a text exactly if all of it is blank. -/
theorem isEmpty_trim (cs : List Char) : (Text.trim cs).isEmpty = !cs.any fun c => !Text.isBlank c := by
  rw [Bool.eq_iff_iff, List.isEmpty_iff, Text.trim_eq_nil_iff]
  simp [Text.Blank]

/-- Pieces that end with a line have code if one of them or the line has. -/
theorem isEmpty_codePart_joinPieces_concat {pieces : List (List Char)} (h : ∀ p ∈ pieces, IsPiece p)
    (line : List Char) : (codePart (joinPieces (pieces ++ [line]))).isEmpty =
      (pieces.all (fun p => (codePart p).isEmpty) && (codePart line).isEmpty) := by
  have hreading : (codePart (pendingText pieces ++ line)).isEmpty =
      (codePart (joinPieces (pieces ++ [line]))).isEmpty := congrArg Prod.snd (reading_pendingText_append h line)
  rw [← hreading]
  clear hreading
  induction pieces with
  | nil => simp [pendingText]
  | cons p pieces ih =>
      rw [pendingText_cons, List.append_assoc, List.cons_append, isEmpty_codePart_append_space (h p (by simp)).code,
        ih fun q hq => h q (by simp [hq]), List.all_cons, Bool.and_assoc]

/-- Pieces are joined to the empty text exactly if all of them are empty. -/
theorem joinPieces_eq_nil_iff {pieces : List (List Char)} : joinPieces pieces = [] ↔ ∀ p ∈ pieces, p = [] := by
  induction pieces with
  | nil => simp [joinPieces]
  | cons p pieces ih =>
      by_cases hp : p = []
      · simp [hp, joinPieces_nil_cons, ih]
      · rcases joinPieces_cons hp pieces with ⟨-, hone⟩ | hmore
        · simp [hone, hp]
        · simp [hmore, hp]

/-- A piece in front of empty pieces stands alone. -/
theorem joinPieces_cons_of_eq_nil {pieces : List (List Char)} (h : joinPieces pieces = []) (p : List Char) :
    joinPieces (p :: pieces) = p := by
  have hnone : pieces.filter (!·.isEmpty) = [] := by simpa using joinPieces_eq_nil_iff.mp h
  cases p <;> simp [joinPieces, hnone]

/-- Trimmed pieces are joined to a trimmed text. -/
theorem trim_joinPieces {pieces : List (List Char)} (h : ∀ p ∈ pieces, Text.trim p = p) :
    Text.trim (joinPieces pieces) = joinPieces pieces := by
  induction pieces with
  | nil => rfl
  | cons p pieces ih =>
      have hp := h p (by simp)
      have htail := ih fun q hq => h q (by simp [hq])
      by_cases hrest : joinPieces pieces = []
      · rw [joinPieces_cons_of_eq_nil hrest, hp]
      · by_cases hne : p = []
        · rw [hne, joinPieces_nil_cons, htail]
        · -- The first piece starts the text without a blank, and the other pieces end it without one.
          obtain ⟨hnone, -⟩ | hmore := joinPieces_cons hne pieces
          · exact absurd hnone hrest
          · rw [hmore, Text.trim, Text.trimLeft_append_of_trim_eq hp hne, List.append_cons,
              Text.trimRight_append_of_trim_eq htail hrest]

/-- The characters of joined pieces are those of the pieces and spaces. -/
theorem mem_joinPieces {pieces : List (List Char)} {c : Char} (h : c ∈ joinPieces pieces) :
    c = ' ' ∨ ∃ p ∈ pieces, c ∈ p := by
  induction pieces with
  | nil => cases h
  | cons p pieces ih =>
      by_cases hp : p = []
      · rw [hp, joinPieces_nil_cons] at h
        simpa [hp] using ih h
      · rcases joinPieces_cons hp pieces with ⟨-, hone⟩ | hmore
        · rw [hone] at h
          exact .inr ⟨p, by simp, h⟩
        · rw [hmore, List.mem_append, List.mem_cons] at h
          rcases h with h | h | h
          · exact .inr ⟨p, by simp, h⟩
          · exact .inl h
          · simp only [List.mem_cons, exists_eq_or_imp]
            exact (ih h).imp_right .inr

/-! ## The collector -/

namespace LogicalLine

/-- Where no statement is pending, the number of its first line does not matter. -/
theorem collect_fresh (number first : Nat) (lines : List (List Char)) :
    collect number [] first lines = collect number [] number lines := by
  cases lines <;> rfl

/-- Lines that go on add their pieces to the statement that is pending, or start one. -/
theorem collect_begun {begun : List (List Char)} (h : ∀ line ∈ begun, continues line = true) (number : Nat)
    (pieces : List (List Char)) (first : Nat) (rest : List (List Char)) :
    collect number pieces first (begun ++ rest) = collect (number + begun.length)
      (pieces ++ begun.map linePiece) (if pieces.isEmpty then number else first) rest := by
  induction begun generalizing number pieces first with
  | nil =>
      cases pieces with
      | nil => exact collect_fresh number first rest
      | cons p pieces => simp
  | cons line begun ih =>
      have hline := h line (by simp)
      rw [List.cons_append, collect, if_pos hline, ih fun line hline => h line (by simp [hline]),
        ← linePiece_of_continues hline, if_neg (by simp), List.length_cons, List.map_cons, List.append_assoc,
        List.singleton_append, Nat.add_assoc, Nat.add_comm 1]

/-- The statement of a group that is finished is collected, and then the other groups. -/
theorem collect_finished {begun : List (List Char)} {last : List Char}
    (hbegun : ∀ line ∈ begun, continues line = true) (hlast : continues last = false) (number : Nat)
    (rest : List (List Char)) :
    collect number [] number (begun ++ last :: rest) =
      ofPieces (fun text => !(codePart text).isEmpty) ((begun ++ [last]).map linePiece) number ++
        collect (number + (begun ++ [last]).length) [] (number + (begun ++ [last]).length) rest := by
  have hfirst : (if (begun.map linePiece).isEmpty then number + begun.length else number) = number := by
    cases begun <;> rfl
  rw [collect_begun hbegun, collect, List.nil_append]
  simp only [List.isEmpty_nil, if_true, hlast, Bool.false_eq_true, if_false, hfirst]
  rw [← linePiece_of_not_continues hlast, collect_fresh, List.map_append, List.length_append]
  rfl

/-- The statement of an unfinished group is collected at the end. -/
theorem collect_unfinished {group : List (List Char)} (hne : group ≠ [])
    (h : ∀ line ∈ group, continues line = true) (number : Nat) :
    collect number [] number group = ofPieces (!·.isEmpty) (group.map linePiece) number := by
  have hcollect := collect_begun h number [] number []
  rw [List.append_nil] at hcollect
  rw [hcollect, collect, if_neg (by simpa using hne)]
  rfl

end LogicalLine

/-- What lines that go on contribute has no blanks around it and no comment. -/
theorem isPiece_of_mem_map {lines : List (List Char)} (h : ∀ line ∈ lines, continues line = true) :
    ∀ p ∈ lines.map linePiece, IsPiece p := by
  intro p hp
  obtain ⟨line, hline, rfl⟩ := List.mem_map.mp hp
  rw [linePiece_of_continues (h line hline)]
  exact isPiece_continuedPiece line

/-- The text of a group has code exactly if the group has. -/
theorem isEmpty_codePart_groupText {begun : List (List Char)} (h : ∀ line ∈ begun, continues line = true)
    (last : List Char) :
    (codePart (groupText (begun ++ [last]))).isEmpty = !hasCode (begun ++ [last]) := by
  rw [groupText_eq, List.map_append, List.map_singleton,
    isEmpty_codePart_joinPieces_concat (isPiece_of_mem_map h)]
  simp only [List.all_map, Function.comp_def, codePart_linePiece, isEmpty_trim, hasCode, List.any_append,
    List.any_cons, List.any_nil, Bool.or_false, Bool.not_or, List.not_any_eq_all_not]

/-- A group forms a logical line exactly if it has code. -/
theorem ofPieces_eq_entry {group : List (List Char)} {admits : List Char → Bool}
    (h : admits (groupText group) = hasCode group) (number : Nat) :
    LogicalLine.ofPieces admits (group.map linePiece) number =
      if hasCode group then [⟨String.ofList (groupText group), number⟩] else [] := by
  simp only [LogicalLine.ofPieces, ← groupText_eq, h]

/-- A group of lines that all go on has a last line. -/
theorem exists_eq_concat {group : List (List Char)} (hne : group ≠ [])
    (h : ∀ line ∈ group, continues line = true) :
    ∃ begun last, group = begun ++ [last] ∧ ∀ line ∈ begun, continues line = true :=
  ⟨group.dropLast, group.getLast hne, (List.dropLast_append_getLast hne).symm,
    fun line hline => h line ((List.dropLast_sublist _).subset hline)⟩

/-- The logical lines of some lines are those of their groups. -/
theorem collect_eq_entries {lines : List (List Char)} {groups : List (List (List Char))}
    (h : SplitsInto lines groups) (number : Nat) :
    LogicalLine.collect number [] number lines = groupEntries number groups := by
  induction h generalizing number with
  | none => rfl
  | @unfinished group hne h =>
      rw [LogicalLine.collect_unfinished hne h, groupEntries, groupEntries, List.append_nil]
      apply ofPieces_eq_entry
      -- The text of such a group has no comment, so it has code as soon as it is not empty.
      have hempty : (groupText group).isEmpty = (codePart (groupText group)).isEmpty := by
        rw [groupText_eq, Bool.eq_iff_iff, List.isEmpty_iff, List.isEmpty_iff,
          codePart_joinPieces_eq_nil_iff (isPiece_of_mem_map h)]
      obtain ⟨begun, last, rfl, hbegun⟩ := exists_eq_concat hne h
      rw [hempty, isEmpty_codePart_groupText hbegun, Bool.not_not]
  | @finished begun rest last groups hbegun hlast h ih =>
      rw [LogicalLine.collect_finished hbegun hlast, ih, groupEntries]
      congr 1
      apply ofPieces_eq_entry
      rw [isEmpty_codePart_groupText hbegun, Bool.not_not]

/-- The logical lines of a script are those of the groups of its physical lines. -/
theorem logicalLines_eq_groupEntries (script : String) :
    logicalLines script = groupEntries 1 (lineGroups (Text.physicalLines script.toList)) := by
  rw [logicalLines, LogicalLine.collect_fresh, collect_eq_entries (splitsInto_lineGroups _)]

/-- What is true of every group of some lines: it starts with lines that go on, and has another line. -/
theorem SplitsInto.exists_eq_append {lines : List (List Char)} {groups : List (List (List Char))}
    (h : SplitsInto lines groups) {group : List (List Char)} (hgroup : group ∈ groups) :
    ∃ begun last, group = begun ++ [last] ∧ ∀ line ∈ begun, continues line = true := by
  induction h with
  | none => cases hgroup
  | @unfinished whole hne h =>
      obtain rfl := List.mem_singleton.mp hgroup
      exact exists_eq_concat hne h
  | @finished begun rest last groups hbegun hlast h ih =>
      rcases List.mem_cons.mp hgroup with rfl | hgroup
      · exact ⟨begun, last, rfl, hbegun⟩
      · exact ih hgroup

/-! ## What the logical lines of groups are -/

/-- A logical line comes from a group with code, and has the text of that group. -/
theorem mem_groupEntries {groups : List (List (List Char))} {number : Nat} {l : LogicalLine}
    (h : l ∈ groupEntries number groups) :
    ∃ group ∈ groups, hasCode group = true ∧ l.text = String.ofList (groupText group) := by
  induction groups generalizing number with
  | nil => cases h
  | cons group groups ih =>
      rw [groupEntries, List.mem_append] at h
      rcases h with h | h
      · split at h
        · next hcode =>
          obtain rfl := List.mem_singleton.mp h
          exact ⟨group, by simp, hcode, rfl⟩
        · cases h
      · obtain ⟨other, hother, hcode, htext⟩ := ih h
        exact ⟨other, by simp [hother], hcode, htext⟩

/-- Logical lines start within the lines of their groups. -/
theorem line_of_mem_groupEntries {groups : List (List (List Char))} (hne : [] ∉ groups) {number : Nat}
    {l : LogicalLine} (h : l ∈ groupEntries number groups) :
    number ≤ l.line ∧ l.line < number + groups.flatten.length := by
  induction groups generalizing number with
  | nil => cases h
  | cons group groups ih =>
      have hgroup : 0 < group.length := List.length_pos_iff.mpr fun hnil => hne (by simp [hnil])
      rw [List.flatten_cons, List.length_append]
      rw [groupEntries, List.mem_append] at h
      rcases h with h | h
      · split at h
        · obtain rfl := List.mem_singleton.mp h
          exact ⟨le_rfl, by simp only; omega⟩
        · cases h
      · have hline := ih (fun hnil => hne (by simp [hnil])) h
        omega

/-- Later groups have greater numbers. -/
theorem pairwise_groupEntries {groups : List (List (List Char))} (hne : [] ∉ groups) (number : Nat) :
    (groupEntries number groups).Pairwise fun l later => l.line < later.line := by
  induction groups generalizing number with
  | nil => exact .nil
  | cons group groups ih =>
      have hgroup : 0 < group.length := List.length_pos_iff.mpr fun hnil => hne (by simp [hnil])
      have hrest : [] ∉ groups := fun hnil => hne (by simp [hnil])
      rw [groupEntries, List.pairwise_append]
      refine ⟨?_, ih hrest (number + group.length), ?_⟩
      · split <;> simp
      · intro l hl later hlater
        have hline := (line_of_mem_groupEntries hrest hlater).1
        split at hl
        · obtain rfl := List.mem_singleton.mp hl
          simp only
          omega
        · cases hl

/-- The text of a group holds no line break and no blank at either end, and it has code if the group has. -/
theorem groupText_spec {lines : List (List Char)} {groups : List (List (List Char))} (h : SplitsInto lines groups)
    (hlines : ∀ line ∈ lines, ∀ c ∈ line, Text.isLineBreak c = false) {group : List (List Char)}
    (hgroup : group ∈ groups) (hcode : hasCode group = true) :
    (∀ c ∈ groupText group, Text.isLineBreak c = false) ∧ Text.trim (groupText group) = groupText group ∧
      codePart (groupText group) ≠ [] := by
  refine ⟨?_, ?_, ?_⟩
  · intro c hc
    rw [groupText_eq] at hc
    rcases mem_joinPieces hc with rfl | ⟨p, hp, hc⟩
    · decide
    · obtain ⟨line, hline, rfl⟩ := List.mem_map.mp hp
      refine hlines line ?_ c (mem_of_mem_linePiece hc)
      rw [← h.flatten_eq]
      exact List.mem_flatten.mpr ⟨group, hgroup, hline⟩
  · rw [groupText_eq]
    apply trim_joinPieces
    intro p hp
    obtain ⟨line, -, rfl⟩ := List.mem_map.mp hp
    exact trim_linePiece line
  · obtain ⟨begun, last, rfl, hbegun⟩ := h.exists_eq_append hgroup
    have hempty := isEmpty_codePart_groupText hbegun last
    rw [hcode] at hempty
    simpa using hempty

/-- The physical lines of a script fall into groups in exactly one way. The script has one logical line for each
group with code, in order and none else: it starts where the group starts, so later ones start later, and it is
made of the pieces of the group, so it has code, no blanks around it and no line break. -/
theorem logicalLines_account_for_groups (script : String) :
    ∃ groups, SplitsInto (Text.physicalLines script.toList) groups ∧
      (∀ others, SplitsInto (Text.physicalLines script.toList) others → others = groups) ∧
      groups.flatten = Text.physicalLines script.toList ∧ logicalLines script = groupEntries 1 groups ∧
      (logicalLines script).Pairwise (fun l later => l.line < later.line) ∧
      ∀ l ∈ logicalLines script, (1 ≤ l.line ∧ l.line ≤ (Text.physicalLines script.toList).length) ∧
        (∀ c ∈ l.text.toList, Text.isLineBreak c = false) ∧ Text.trim l.text.toList = l.text.toList ∧
        codePart l.text.toList ≠ [] := by
  have hlines : ∀ line ∈ Text.physicalLines script.toList, ∀ c ∈ line, Text.isLineBreak c = false :=
    fun line hline c hc => Text.not_isBreak_of_mem_linesBy hline hc
  have hentries := logicalLines_eq_groupEntries script
  generalize Text.physicalLines script.toList = lines at hlines hentries ⊢
  have hsplit : SplitsInto lines (lineGroups lines) := splitsInto_lineGroups lines
  have hne : [] ∉ lineGroups lines := by
    intro hnil
    obtain ⟨begun, last, hgroup, -⟩ := hsplit.exists_eq_append hnil
    simp at hgroup
  refine ⟨lineGroups lines, hsplit, fun others => splitsInto_iff.mp, hsplit.flatten_eq, hentries, ?_, ?_⟩
  · rw [hentries]
    exact pairwise_groupEntries hne 1
  · intro l hl
    rw [hentries] at hl
    have hline := line_of_mem_groupEntries hne hl
    rw [hsplit.flatten_eq] at hline
    obtain ⟨group, hgroup, hcode, htext⟩ := mem_groupEntries hl
    rw [htext, String.toList_ofList]
    exact ⟨by omega, groupText_spec hsplit hlines hgroup hcode⟩

end Calculator
