import Calculator.Proofs.Session.Script

/-!
# What the statements of a session are made of

Whatever lines are entered, also commands and ends of the input, each statement of the history is made
of them: of the pieces of lines that went on, with a space after each, and then of the line that
completed the statement, or of the pieces alone if the input ended (`comesFrom_feed`).

So blanks stand around a statement only where a piece is empty, and leaving them out changes nothing
(`IsStatementOf.reading_trim`). And a statement goes on with the next line of a script only if a
piece ends with a second backslash (`IsStatementOf.isReplayable`).
-/

set_option autoImplicit false

namespace Calculator

/-! ## The end of the code -/

/-- The last character of a trimmed text is that of its last part that is not blank. -/
theorem Text.getLast?_trim_append (a : List Char) {b : List Char} (h : ¬Blank b) :
    (trim (a ++ b)).getLast? = (trim b).getLast? := by
  obtain ⟨before, after, hbefore, hafter, hb⟩ := exists_blanks_around b
  have htrimmed : trim (trim b) = trim b := trim_trim b
  have hne : trim b ≠ [] := fun hnil => h (trim_eq_nil_iff.mp hnil)
  generalize trim b = inner at hb htrimmed hne
  subst hb
  -- The blanks at the end are taken away, those before the last character that is none may stay.
  obtain ⟨rest, hleft⟩ : ∃ rest, trimLeft (a ++ before ++ inner) = rest ++ inner := by
    have hinner : inner.dropWhile isBlank = inner := trimLeft_eq_of_trim_eq htrimmed
    unfold trimLeft
    rw [List.dropWhile_append]
    split
    · exact ⟨[], hinner⟩
    · exact ⟨_, rfl⟩
  rw [← List.append_assoc, ← List.append_assoc, trim_append_blank _ hafter, trim, hleft,
    trimRight_append_of_trim_eq htrimmed hne, List.getLast?_append_of_ne_nil rest hne]

/-- Behind a text without a comment and a space, a line goes on if it has code that does; without code
the text in front decides. -/
theorem continues_append_space {cs : List Char} (h : ';' ∉ cs) (rest : List Char) :
    continues (cs ++ ' ' :: rest) =
      if (codePart rest).isEmpty then continues cs else continues rest := by
  unfold continues codePart
  rw [takeWhile_code_append h, takeWhile_code_eq_self h, List.takeWhile_cons_of_pos (by decide)]
  by_cases hrest : Text.Blank (rest.takeWhile (· != ';'))
  · have hblank : Text.Blank (' ' :: rest.takeWhile (· != ';')) := by
      intro c hc
      rcases List.mem_cons.mp hc with rfl | hc
      · decide
      · exact hrest c hc
    rw [if_pos (by simpa using Text.trim_eq_nil_iff.mpr hrest), Text.trim_append_blank _ hblank]
  · have hcode : Text.trim (rest.takeWhile (· != ';')) ≠ [] :=
      fun hnil => hrest (Text.trim_eq_nil_iff.mp hnil)
    rw [if_neg (by simpa using hcode), List.append_cons, Text.getLast?_trim_append _ hrest]

/-- A line that does not go on does not go on behind pending text either. -/
theorem continues_pendingText_append {pieces : List (List Char)} (h : ∀ p ∈ pieces, IsPiece p)
    (hlast : ∀ p ∈ pieces, p.getLast? ≠ some '\\') {line : List Char}
    (hline : continues line = false) : continues (pendingText pieces ++ line) = false := by
  induction pieces with
  | nil => exact hline
  | cons p pieces ih =>
      have hpiece := h p List.mem_cons_self
      have htail := ih (fun q hq => h q (List.mem_cons_of_mem p hq))
        fun q hq => hlast q (List.mem_cons_of_mem p hq)
      rw [pendingText_cons, List.append_assoc, List.cons_append, continues_append_space hpiece.code]
      split
      · have hp : continues p = (p.getLast? == some '\\') := by
          rw [continues, codePart, takeWhile_code_eq_self hpiece.code, hpiece.trimmed]
        rw [hp]
        simpa using hlast p List.mem_cons_self
      · exact htail

/-! ## Blanks around a statement -/

section Trimming

variable {pieces : List (List Char)} (h : ∀ p ∈ pieces, IsPiece p)
include h

/-- Trimming pending text and a line drops the blanks of the empty pieces in front. -/
theorem trim_pendingText_append {line : List Char} (hline : Text.trim line = line)
    (hne : line ≠ []) :
    Text.trim (pendingText pieces ++ line) = pendingText (pieces.dropWhile List.isEmpty) ++ line := by
  have hpieces : (pendingText pieces).dropWhile Text.isBlank =
      pendingText (pieces.dropWhile List.isEmpty) := trimLeft_pendingText h
  have hleft : Text.trimLeft (pendingText pieces ++ line) =
      pendingText (pieces.dropWhile List.isEmpty) ++ line := by
    unfold Text.trimLeft
    rw [List.dropWhile_append, hpieces]
    split
    · next hempty =>
      rw [List.isEmpty_iff.mp hempty]
      exact Text.trimLeft_eq_of_trim_eq hline
    · rfl
  rw [Text.trim, hleft, Text.trimRight_append_of_trim_eq hline hne]

/-- The blanks around a statement can be left out. -/
theorem reading_trim_pendingText_append {line : List Char} (hline : Text.trim line = line) :
    reading (Text.trim (pendingText pieces ++ line)) = reading (pendingText pieces ++ line) := by
  rw [reading_pendingText_append h]
  by_cases hne : line = []
  · subst hne
    rw [List.append_nil, reading_trim_pendingText h, joinPieces_concat_nil]
  · have hrest : ∀ p ∈ pieces.dropWhile List.isEmpty, IsPiece p := fun p hp =>
      h p ((List.dropWhile_sublist _).subset hp)
    have hjoin : joinPieces (pieces.dropWhile List.isEmpty ++ [line]) =
        joinPieces (pieces ++ [line]) := by
      rw [← joinPieces_dropWhile_isEmpty (pieces ++ [line]), List.dropWhile_append]
      split
      · next hempty => simp [List.isEmpty_iff.mp hempty, hne]
      · rfl
    rw [trim_pendingText_append h hline hne, reading_pendingText_append hrest, hjoin]

end Trimming

/-! ## Where the statements come from -/

namespace Session

/-- A piece that one of the lines contributes by going on with the next. -/
def IsContinuation (lines : List String) (p : List Char) : Prop :=
  ∃ line ∈ lines, continues line.toList = true ∧ p = continuedPiece line.toList

/-- A text that some of the lines form: pieces and the line that completes them, or pieces that the end
of the input completes. -/
inductive IsStatementOf (lines : List String) : List Char → Prop
  | completed {pieces : List (List Char)} {line : String}
      (hpieces : ∀ p ∈ pieces, IsContinuation lines p) (hline : line ∈ lines)
      (hends : continues line.toList = false) :
      IsStatementOf lines (pendingText pieces ++ Text.trim line.toList)
  | ended {pieces : List (List Char)} (hpieces : ∀ p ∈ pieces, IsContinuation lines p) :
      IsStatementOf lines (Text.trim (pendingText pieces))

/-- All that a session keeps is made of the lines, and its statements have code. -/
structure ComesFrom (s : Session) (lines : List String) : Prop where
  pending : ∃ pieces, s.pending.toList = pendingText pieces ∧ ∀ p ∈ pieces, IsContinuation lines p
  history : ∀ entry ∈ s.history, IsStatementOf lines entry.toList
  code : ∀ entry ∈ s.history, codePart entry.toList ≠ []

variable {s : Session} {lines : List String} {line : String}

/-- Entering a statement of some lines keeps a session that comes from them. -/
theorem ComesFrom.enter (h : s.ComesFrom lines) {statement : String}
    (hstatement : IsStatementOf lines statement.toList) :
    (s.enter statement).1.ComesFrom lines := by
  unfold Session.enter
  split
  · exact h
  · next hcode =>
    rw [List.isEmpty_iff] at hcode
    refine ⟨h.pending, ?_, ?_⟩
    · intro entry hentry
      rcases List.mem_append.mp hentry with hentry | hentry
      · exact h.history entry hentry
      · rwa [List.mem_singleton.mp hentry]
    · intro entry hentry
      rcases List.mem_append.mp hentry with hentry | hentry
      · exact h.code entry hentry
      · rwa [List.mem_singleton.mp hentry]

/-- The statements stay when the pending text is dropped. -/
theorem ComesFrom.dropPending (h : s.ComesFrom lines) (continuing : Bool) :
    ComesFrom { s with pending := "", continuing := continuing } lines :=
  ⟨⟨[], rfl, by simp⟩, h.history, h.code⟩

/-- A line of a statement keeps a session that comes from lines with that one among them. -/
theorem ComesFrom.statementLine (h : s.ComesFrom lines) (hline : line ∈ lines) :
    (s.statementLine (Text.trim line.toList)).session.ComesFrom lines := by
  obtain ⟨pieces, hpending, hpieces⟩ := h.pending
  unfold Session.statementLine
  split
  · next hcontinues =>
    rw [continues_trim] at hcontinues
    refine ⟨⟨pieces ++ [continuedPiece line.toList], ?_, ?_⟩, h.history, h.code⟩
    · simp [hpending, pendingText_concat, continuedPiece_trim]
    · intro p hp
      rcases List.mem_append.mp hp with hp | hp
      · exact hpieces p hp
      · exact ⟨line, hline, hcontinues, List.mem_singleton.mp hp⟩
  · next hcontinues =>
    rw [continues_trim, Bool.not_eq_true] at hcontinues
    apply (h.dropPending false).enter
    rw [String.toList_append, String.toList_ofList, hpending]
    exact .completed hpieces hline hcontinues

/-- The end of the input keeps a session that comes from some lines. -/
theorem ComesFrom.finish (h : s.ComesFrom lines) : s.finish.session.ComesFrom lines := by
  obtain ⟨pieces, hpending, hpieces⟩ := h.pending
  unfold Session.finish
  simp only
  split
  · exact h
  · apply (h.dropPending s.continuing).enter
    rw [String.toList_ofList, hpending]
    exact .ended hpieces

/-- One more line. -/
theorem ComesFrom.submit (h : s.ComesFrom lines) (hline : line ∈ lines) :
    (s.submit line).session.ComesFrom lines := by
  unfold Session.submit
  simp only
  split
  · exact h
  split
  · exact h.finish
  split
  · exact h
  · exact h.statementLine hline

/-- Entering more of the lines keeps a session that comes from them. -/
theorem ComesFrom.feed (h : s.ComesFrom lines) {more : List String} (hmore : more ⊆ lines) :
    (s.feed more).ComesFrom lines := by
  induction more generalizing s with
  | nil => exact h
  | cons line more ih =>
      rw [List.cons_subset] at hmore
      exact ih (h.submit hmore.1) hmore.2

/-- After any lines, the statements and the pending text are made of them. -/
theorem comesFrom_feed (lines : List String) : (fresh.feed lines).ComesFrom lines :=
  ComesFrom.feed ⟨⟨[], rfl, by simp⟩, by simp [fresh], by simp [fresh]⟩ (List.Subset.refl lines)

/-! ## Statements on lines of their own -/

/-- A text that a script can hold on a line of its own: it is not broken into several lines, and it does
not go on with the next one. -/
structure IsReplayable (cs : List Char) : Prop where
  unbroken : ∀ c ∈ cs, Text.isLineBreak c = false
  ends : continues cs = false

/-- A line that is not broken into several, and that has one backslash at the end of its code if it goes
on. -/
structure IsPlain (line : String) : Prop where
  unbroken : ∀ c ∈ line.toList, Text.isLineBreak c = false
  single : continues line.toList = true → (continuedPiece line.toList).getLast? ≠ some '\\'

/-- A line is plain if it holds no line break and does not go on with a second backslash before its end. -/
theorem isPlain_iff {line : String} :
    IsPlain line ↔ line.toList.any Text.isLineBreak = false ∧
      (continues line.toList = true → (continuedPiece line.toList).getLast? ≠ some '\\') := by
  constructor
  · intro h
    exact ⟨by simpa using h.unbroken, h.single⟩
  · rintro ⟨hunbroken, hsingle⟩
    exact ⟨by simpa using hunbroken, hsingle⟩

instance (line : String) : Decidable (IsPlain line) := decidable_of_iff _ isPlain_iff.symm

/-- What a continued line contributes has no blanks around it and no comment. -/
theorem IsContinuation.isPiece {p : List Char} (h : IsContinuation lines p) : IsPiece p := by
  obtain ⟨line, -, -, rfl⟩ := h
  exact isPiece_continuedPiece line.toList

/-- Blanks around a statement do not change how it reads. -/
theorem IsStatementOf.reading_trim {cs : List Char} (h : IsStatementOf lines cs) :
    reading (Text.trim cs) = reading cs := by
  cases h with
  | completed hpieces =>
      exact reading_trim_pendingText_append (fun p hp => (hpieces p hp).isPiece) (Text.trim_trim _)
  | ended => rw [Text.trim_trim]

/-- The characters that a continued line contributes are characters of the line. -/
theorem mem_of_mem_continuedPiece {c : Char} {cs : List Char} (h : c ∈ continuedPiece cs) :
    c ∈ cs := by
  have hcode : c ∈ codePart cs := (List.dropLast_sublist _).subset (Text.mem_of_mem_trim h)
  exact (List.takeWhile_sublist _).subset (Text.mem_of_mem_trim hcode)

section Plain

variable (hlines : ∀ line ∈ lines, IsPlain line) {pieces : List (List Char)}
  (hpieces : ∀ p ∈ pieces, IsContinuation lines p)
include hlines hpieces

/-- Pending text of unbroken lines holds no line break. -/
theorem unbroken_pendingText : ∀ c ∈ pendingText pieces, Text.isLineBreak c = false := by
  intro c hc
  obtain ⟨p, hp, hc⟩ := List.mem_flatMap.mp hc
  rcases List.mem_append.mp hc with hc | hc
  · obtain ⟨line, hline, -, rfl⟩ := hpieces p hp
    exact (hlines line hline).unbroken c (mem_of_mem_continuedPiece hc)
  · rw [List.mem_singleton.mp hc]
    decide

/-- Pending text and a line that does not go on can stand on one line. -/
theorem isReplayable_pendingText_append {line : List Char}
    (hunbroken : ∀ c ∈ line, Text.isLineBreak c = false) (hends : continues line = false) :
    IsReplayable (pendingText pieces ++ line) := by
  constructor
  · intro c hc
    rcases List.mem_append.mp hc with hc | hc
    · exact unbroken_pendingText hlines hpieces c hc
    · exact hunbroken c hc
  · refine continues_pendingText_append (fun p hp => (hpieces p hp).isPiece) ?_ hends
    intro p hp
    obtain ⟨line, hline, hcontinues, rfl⟩ := hpieces p hp
    exact (hlines line hline).single hcontinues

end Plain

/-- Plain lines form statements that can stand on lines of their own. -/
theorem IsStatementOf.isReplayable (hlines : ∀ line ∈ lines, IsPlain line) {cs : List Char}
    (h : IsStatementOf lines cs) : IsReplayable cs := by
  cases h with
  | @completed pieces line hpieces hline hends =>
      apply isReplayable_pendingText_append hlines hpieces
      · intro c hc
        exact (hlines line hline).unbroken c (Text.mem_of_mem_trim hc)
      · rwa [continues_trim]
  | ended hpieces =>
      have hnone : continues [] = false := by decide
      have hwhole := isReplayable_pendingText_append hlines hpieces (by simp) hnone
      rw [List.append_nil] at hwhole
      constructor
      · intro c hc
        exact hwhole.unbroken c (Text.mem_of_mem_trim hc)
      · rw [continues_trim]
        exact hwhole.ends

end Session

end Calculator
