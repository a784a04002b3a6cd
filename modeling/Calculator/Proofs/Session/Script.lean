import Calculator.Proofs.LogicalLine.Pieces
import Calculator.Proofs.Text.Line
import Calculator.Session

/-!
# A script entered line by line

A session joins the lines of a statement as they come: its pending text is the pieces so far with a
space after each. The logical lines of a script are joined from a list of pieces that leaves out the
empty ones. Entering the lines of a script one by one and then ending the input keeps both in step, so
the history holds one statement for each logical line, and the two evaluate alike.
-/

set_option autoImplicit false

namespace Calculator

/-- The value of an evaluation, or the name and the wording of its fault. -/
def Evaluation.verdict (e : Evaluation) : Except (String × String) Float :=
  e.outcome.mapError fun fault => (fault.cause.kind, fault.cause.message)

/-- Texts with the same words have the same verdict, whatever room there is for calls. -/
theorem verdict_evaluate_eq (room : Nat) (text text' : String) (line line' : Int)
    (h : Token.words text.toList = Token.words text'.toList) :
    (evaluate room text line).verdict = (evaluate room text' line').verdict := by
  have hcause : ∀ (text : String) (line : Int), (evaluate room text line).verdict =
      ((textValue (room - 1) text).mapError Fault.cause).mapError fun cause => (cause.kind, cause.message) := by
    intro text line
    simp only [Evaluation.verdict, evaluate]
    cases textValue (room - 1) text <;> rfl
  rw [hcause, hcause, textValue_eq_of_words_eq _ h]

namespace Session

/-- A session after some lines, whatever effects they have. -/
def feed (s : Session) (lines : List String) : Session :=
  lines.foldl (fun s line => (s.submit line).session) s

/-- The first of some lines is entered before the others. -/
theorem feed_cons (s : Session) (line : String) (lines : List String) :
    s.feed (line :: lines) = (s.submit line).session.feed lines := rfl

/-- A line that does not stand for the end of the input and, where a statement starts, opens no
command. -/
def TakesLine (s : Session) (line : String) : Prop :=
  Text.trim line.toList ≠ endOfInput.toList ∧
    (s.pending = "" → (Text.trim line.toList).head? ≠ some ':')

instance (s : Session) (line : String) : Decidable (s.TakesLine line) :=
  inferInstanceAs (Decidable (_ ∧ _))

/-- Physical lines of a script, all of which a session takes as parts of statements. -/
def TakesScript (s : Session) : List String → Prop
  | [] => True
  | line :: rest =>
    line.toList.any Text.isLineBreak = false ∧ s.TakesLine line ∧
      TakesScript (s.submit line).session rest

instance TakesScript.decidable : ∀ (s : Session) (lines : List String),
    Decidable (s.TakesScript lines)
  | _, [] => inferInstanceAs (Decidable True)
  | s, line :: rest =>
    have := TakesScript.decidable (s.submit line).session rest
    inferInstanceAs (Decidable (line.toList.any Text.isLineBreak = false ∧ s.TakesLine line ∧
      TakesScript (s.submit line).session rest))

/-- The lines of a script that a session takes hold no line break. -/
theorem TakesScript.unbroken {s : Session} {lines : List String} (h : s.TakesScript lines) :
    ∀ line ∈ lines, ∀ c ∈ line.toList, Text.isLineBreak c = false := by
  induction lines generalizing s with
  | nil => simp
  | cons first lines ih =>
      obtain ⟨hfirst, -, hrest⟩ := h
      intro line hline
      rcases List.mem_cons.mp hline with rfl | hline
      · simpa using hfirst
      · exact ih hrest line hline

/-- The pending text of a session is made of some pieces. -/
structure Holds (s : Session) (pieces : List (List Char)) : Prop where
  pending : s.pending.toList = pendingText pieces
  pieces : ∀ p ∈ pieces, IsPiece p

/-- The verdicts on the statements of a session. -/
def verdicts (room : Nat) (s : Session) : List (Except (String × String) Float) :=
  s.history.map fun statement => (evaluate room statement 1).verdict

end Session

/-- The verdicts on some logical lines. -/
def LogicalLine.verdicts (room : Nat) (lines : List LogicalLine) : List (Except (String × String) Float) :=
  lines.map fun l => (evaluate room l.text l.line).verdict

namespace Session

variable (room : Nat)

/-- A statement that reads as some pieces joined is entered if the pieces form a logical line, and they
evaluate alike. -/
theorem verdicts_enter (s : Session) {statement : String} {pieces : List (List Char)}
    (h : reading statement.toList = reading (joinPieces pieces)) (admits : List Char → Bool)
    (hadmits : admits (joinPieces pieces) = !(codePart (joinPieces pieces)).isEmpty) (line : Nat) :
    (s.enter statement).1.verdicts room =
      s.verdicts room ++ LogicalLine.verdicts room (LogicalLine.ofPieces admits pieces line) := by
  have hwords : Token.words statement.toList = Token.words (joinPieces pieces) :=
    congrArg Prod.fst h
  have hcode : (codePart statement.toList).isEmpty = (codePart (joinPieces pieces)).isEmpty :=
    congrArg Prod.snd h
  unfold enter LogicalLine.ofPieces
  simp only [hadmits, hcode]
  by_cases hempty : (codePart (joinPieces pieces)).isEmpty = true
  · simp [hempty, LogicalLine.verdicts]
  · have hverdict := verdict_evaluate_eq room statement (String.ofList (joinPieces pieces)) 1 line
      (by rw [hwords, String.toList_ofList])
    simp [hempty, verdicts, LogicalLine.verdicts, hverdict]

/-- Entering a statement leaves the pending text. -/
theorem pending_enter (s : Session) (statement : String) :
    (s.enter statement).1.pending = s.pending := by
  unfold enter
  split <;> rfl

/-- Nothing is pending exactly if there are no pieces. -/
theorem Holds.pending_eq_empty_iff {s : Session} {pieces : List (List Char)} (h : s.Holds pieces) :
    s.pending = "" ↔ pieces = [] := by
  rw [← String.toList_inj, h.pending]
  cases pieces with
  | nil => simp [pendingText]
  | cons p pieces => simp [pendingText_cons]

section Steps

variable {s : Session} {pieces : List (List Char)} {line : String}

/-- A line that is no command and not skipped is part of a statement. -/
theorem TakesLine.submit_eq (hline : s.TakesLine line)
    (hskip : ¬(Text.trim line.toList = [] ∧ s.pending = "")) :
    s.submit line = s.statementLine (Text.trim line.toList) := by
  obtain ⟨hend, hcommand⟩ := hline
  unfold submit
  simp only [Bool.and_eq_true, List.isEmpty_iff, String.isEmpty_iff, beq_iff_eq]
  rw [if_neg hskip, if_neg hend, if_neg]
  rintro ⟨hpending, hcolon⟩
  exact hcommand hpending hcolon

/-- A line that goes on with the next adds a piece. -/
theorem Holds.submit_continued (h : s.Holds pieces) (hline : s.TakesLine line)
    (hcontinues : continues line.toList = true) :
    (s.submit line).session.Holds (pieces ++ [continuedPiece line.toList]) ∧
      (s.submit line).session.verdicts room = s.verdicts room := by
  have hcode : continues (Text.trim line.toList) = true := by rwa [continues_trim]
  have hne : Text.trim line.toList ≠ [] := by
    intro hnil
    rw [hnil] at hcode
    revert hcode
    decide
  rw [hline.submit_eq fun hskip => hne hskip.1, statementLine, if_pos hcode, continuedPiece_trim]
  refine ⟨⟨?_, ?_⟩, rfl⟩
  · simp [h.pending, pendingText_concat]
  · intro p hp
    rcases List.mem_append.mp hp with hp | hp
    · exact h.pieces p hp
    · rw [List.mem_singleton] at hp
      rw [hp]
      exact isPiece_continuedPiece line.toList

/-- A line that does not go on completes the statement that the pieces and the line form. -/
theorem Holds.submit_completed (h : s.Holds pieces) (hline : s.TakesLine line)
    (hcontinues : continues line.toList = false) (first : Nat) :
    (s.submit line).session.Holds [] ∧
      (s.submit line).session.verdicts room = s.verdicts room ++ LogicalLine.verdicts room
        (LogicalLine.ofPieces (fun text => !(codePart text).isEmpty)
          (pieces ++ [Text.trim line.toList]) first) := by
  by_cases hskip : Text.trim line.toList = [] ∧ s.pending = ""
  · -- A blank line with nothing pending: no logical line either.
    have hpieces : pieces = [] := h.pending_eq_empty_iff.mp hskip.2
    subst hpieces
    have hsubmit : s.submit line = ⟨s, false, .nothing⟩ := by
      simp [submit, hskip.1, hskip.2]
    rw [hsubmit]
    refine ⟨h, ?_⟩
    rw [hskip.1]
    simp [LogicalLine.ofPieces, LogicalLine.verdicts, joinPieces_singleton]
  · have hcode : ¬continues (Text.trim line.toList) = true := by
      rw [continues_trim, hcontinues]
      simp
    rw [hline.submit_eq hskip, statementLine, if_neg hcode]
    have hreading : reading (s.pending ++ String.ofList (Text.trim line.toList)).toList =
        reading (joinPieces (pieces ++ [Text.trim line.toList])) := by
      rw [String.toList_append, String.toList_ofList, h.pending]
      exact reading_pendingText_append h.pieces _
    refine ⟨⟨?_, by simp⟩, verdicts_enter room _ hreading _ rfl first⟩
    rw [pending_enter]
    rfl

/-- Finishing has the verdicts of entering what is pending. -/
theorem verdicts_finish (s : Session) :
    s.finish.session.verdicts room =
      (enter { s with pending := "" } (String.ofList (Text.trim s.pending.toList))).1.verdicts room := by
  unfold finish
  by_cases hrest : Text.trim s.pending.toList = []
  · simp [hrest, enter, verdicts]
  · simp [hrest]

/-- The end of the input completes the statement that the pieces form. -/
theorem Holds.submit_endOfInput (h : s.Holds pieces) (first : Nat) :
    (s.submit endOfInput).session.verdicts room = s.verdicts room ++ LogicalLine.verdicts room
      (LogicalLine.ofPieces (!·.isEmpty) pieces first) := by
  have htrim : Text.trim endOfInput.toList = endOfInput.toList := by decide
  have hsubmit : s.submit endOfInput = s.finish := by
    unfold submit
    rw [htrim]
    simp [endOfInput]
  have hreading : reading (String.ofList (Text.trim s.pending.toList)).toList =
      reading (joinPieces pieces) := by
    rw [String.toList_ofList, h.pending]
    exact reading_trim_pendingText h.pieces
  have hadmits : (!(joinPieces pieces).isEmpty) = !(codePart (joinPieces pieces)).isEmpty := by
    rw [Bool.eq_iff_iff]
    simp [codePart_joinPieces_eq_nil_iff h.pieces]
  rw [hsubmit, verdicts_finish, verdicts_enter room _ hreading (!·.isEmpty) hadmits first]
  rfl

end Steps

/-- Whatever pieces a session holds, the lines that follow lead to the same verdicts whether they are
entered one by one or collected into logical lines. -/
theorem Holds.verdicts_feed {s : Session} {pieces : List (List Char)} (hs : s.Holds pieces)
    {lines : List String} (h : s.TakesScript lines) (number first : Nat) :
    (s.feed (lines ++ [endOfInput])).verdicts room = s.verdicts room ++ LogicalLine.verdicts room
      (LogicalLine.collect number pieces first (lines.map String.toList)) := by
  induction lines generalizing s pieces number first with
  | nil =>
      have hfeed : s.feed ([] ++ [endOfInput]) = (s.submit endOfInput).session := rfl
      rw [hfeed, hs.submit_endOfInput room first]
      by_cases hpieces : pieces = []
      · subst hpieces
        rfl
      · simp [LogicalLine.collect, hpieces]
  | cons line lines ih =>
      obtain ⟨-, hline, hrest⟩ := h
      rw [List.cons_append, feed_cons, List.map_cons, LogicalLine.collect]
      by_cases hcontinues : continues line.toList = true
      · obtain ⟨hholds, hverdicts⟩ := hs.submit_continued room hline hcontinues
        rw [ih hholds hrest (number + 1) (if pieces.isEmpty then number else first), hverdicts]
        simp [hcontinues]
      · rw [Bool.not_eq_true] at hcontinues
        obtain ⟨hholds, hverdicts⟩ := hs.submit_completed room hline hcontinues
          (if pieces.isEmpty then number else first)
        rw [ih hholds hrest (number + 1) (if pieces.isEmpty then number else first), hverdicts]
        simp [hcontinues, LogicalLine.verdicts]

end Session

/-- Entering the lines of a script one by one and then ending the input leaves as many statements in
the history as the script has logical lines, and each statement has the verdict of its logical line,
with the same room for calls: the same value, or a fault of the same name and wording. -/
theorem history_feed_eq_logicalLines (room : Nat) (lines : List String) (h : Session.fresh.TakesScript lines) :
    let history := (Session.fresh.feed (lines ++ [Session.endOfInput])).history
    let script := String.join (lines.map (· ++ "\n"))
    history.length = (logicalLines script).length ∧
      history.map (fun statement => (evaluate room statement 1).verdict) =
        (logicalLines script).map fun l => (evaluate room l.text l.line).verdict := by
  intro history script
  have hscript : Text.physicalLines script.toList = lines.map String.toList := by
    have hunlines : script.toList = Text.unlines (lines.map String.toList) := by
      simp [script, Text.unlines, String.toList_join, List.flatMap_map]
    rw [hunlines]
    apply Text.physicalLines_unlines
    intro cs hcs
    obtain ⟨line, hline, rfl⟩ := List.mem_map.mp hcs
    exact h.unbroken line hline
  have hfresh : Session.fresh.Holds [] := ⟨rfl, by simp⟩
  have hverdicts := hfresh.verdicts_feed room h 1 0
  rw [← hscript] at hverdicts
  have hmap : history.map (fun statement => (evaluate room statement 1).verdict) =
      (logicalLines script).map fun l => (evaluate room l.text l.line).verdict := hverdicts
  refine ⟨?_, hmap⟩
  simpa using congrArg List.length hmap

/-- An empty line ends a pending statement, a comment is none, a colon inside a statement opens no
command, and the last statement is ended by the end of the input. -/
theorem history_feed_eq_logicalLines_three_statements :
    let lines := ["1 + \\ ; goes on", "", " 2 / 0", "; a comment", "3\\", " :\\"]
    let history := (Session.fresh.feed (lines ++ [Session.endOfInput])).history
    let script := String.join (lines.map (· ++ "\n"))
    Session.fresh.TakesScript lines ∧ history = ["1 + ", "2 / 0", "3 :"] ∧
      logicalLines script = [⟨"1 +", 1⟩, ⟨"2 / 0", 3⟩, ⟨"3 :", 5⟩] ∧
      history.map (fun statement => (evaluate 1000 statement 1).verdict) =
        (logicalLines script).map fun l => (evaluate 1000 l.text l.line).verdict :=
  ⟨by decide, by decide, by decide, (history_feed_eq_logicalLines 1000 _ (by decide)).2⟩

end Calculator
