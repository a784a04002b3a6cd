import Calculator.Proofs.Event.Printed
import Calculator.Proofs.Session.Script
import Calculator.Session.Effect

/-!
# What a line does to a session

Between two lines a session is steady: it asks for the rest of a statement if and only if it holds a part
of one, and what it holds is code that ends with a space. A line that does not stand for the end of the
input keeps it so (`IsSteady.submit`).

Such a line is a command, and then the session stays as it is; or it completes a statement with code, and
then the statement enters the history and its result is printed; or it does neither, and then nothing is
printed and the history stays as it is.
-/

set_option autoImplicit false

namespace Calculator

/-- The name of a command, which ends at the first space. -/
def Command.nameOf (cs : List Char) : String := String.ofList (cs.takeWhile (· != ' '))

/-- The names of the commands that end a session. -/
def Command.leavingNames : List String := [":q", ":quit", ":exit", ":wq"]

/-- A statement leaves the session exactly if its name is that of a leaving command. -/
theorem Command.leaves_ofStatement (cs : List Char) :
    (ofStatement cs).leaves = true ↔ nameOf cs ∈ leavingNames := by
  unfold ofStatement nameOf
  generalize String.ofList (cs.takeWhile (· != ' ')) = name
  simp only
  split <;> simp_all [leaves, leavingNames]

/-- A name that ends a session starts with a colon. -/
theorem Command.head?_of_nameOf_mem {cs : List Char} (h : nameOf cs ∈ leavingNames) :
    cs.head? = some ':' := by
  have hname : (cs.takeWhile (· != ' ')).head? = some ':' := by
    have hlist : cs.takeWhile (· != ' ') = (nameOf cs).toList := (String.toList_ofList).symm
    rw [hlist]
    generalize nameOf cs = name at h
    revert name
    decide
  cases cs with
  | nil => cases hname
  | cons c rest =>
      rw [List.takeWhile_cons] at hname
      split at hname
      · exact hname
      · cases hname

namespace Session

/-- The prompt asks for the rest of a statement if and only if a part of it is pending, and that part is
code with a space at its end. -/
structure IsSteady (s : Session) : Prop where
  prompt : s.prompt = "... " ↔ s.pending ≠ ""
  code : ';' ∉ s.pending.toList
  space : s.pending ≠ "" → s.pending.toList.getLast? = some ' '

/-- The statement that a line completes. -/
def statementWith (s : Session) (line : String) : String :=
  s.pending ++ String.ofList (Text.trim line.toList)

/-- A line that does not go on with the next and that has code, alone or with the pending text. -/
def Completes (s : Session) (line : String) : Prop :=
  continues line.toList = false ∧ codePart (s.pending ++ line).toList ≠ []

/-- The prompt asks for more exactly if a statement goes on. -/
theorem prompt_eq_iff {s : Session} : s.prompt = "... " ↔ s.continuing = true := by
  unfold prompt
  cases s.continuing <;> decide

/-- Entering a statement does not change whether one goes on. -/
theorem continuing_enter (s : Session) (statement : String) :
    (s.enter statement).1.continuing = s.continuing := by
  unfold enter
  split <;> rfl

/-- A fresh session is steady. -/
theorem isSteady_fresh : fresh.IsSteady := ⟨by decide, by decide, by decide⟩

section Steps

variable {s : Session} {line : String}

/-- A line of a statement is taken as such, also a blank one with which no statement has started. -/
theorem IsSteady.submit_eq (h : s.IsSteady) (hline : s.TakesLine line) :
    s.submit line = s.statementLine (Text.trim line.toList) := by
  by_cases hskip : Text.trim line.toList = [] ∧ s.pending = ""
  · have hasking : s.continuing = false := by
      rw [Bool.eq_false_iff]
      exact fun hcontinuing => h.prompt.mp (prompt_eq_iff.mpr hcontinuing) hskip.2
    obtain ⟨history, pending, continuing⟩ := s
    obtain ⟨htrim, rfl⟩ := hskip
    cases hasking
    simp only [submit, htrim]
    rfl
  · exact hline.submit_eq hskip

/-- A line that starts with a colon where nothing is pending is a command. -/
theorem submit_eq_command (hpending : s.pending = "")
    (hcolon : (Text.trim line.toList).head? = some ':') :
    s.submit line = s.command (.ofStatement (Text.trim line.toList)) := by
  have hne : Text.trim line.toList ≠ [] := by
    intro hnil
    rw [hnil] at hcolon
    cases hcolon
  have hend : Text.trim line.toList ≠ endOfInput.toList := by
    intro heq
    rw [heq] at hcolon
    revert hcolon
    decide
  simp [submit, hne, hend, hpending, hcolon]

/-- A command leaves the session as it is. -/
theorem session_command (s : Session) (c : Command) : (s.command c).session = s := rfl

/-- A session ends with a command exactly if the command leaves. -/
theorem stop_command (s : Session) (c : Command) : (s.command c).stop = c.leaves := rfl

/-- A line that opens a command takes no part in a statement. -/
theorem takesLine_or_command (hend : Text.trim line.toList ≠ endOfInput.toList) :
    s.TakesLine line ∨ s.pending = "" ∧ (Text.trim line.toList).head? = some ':' := by
  by_cases hcommand : s.pending = "" ∧ (Text.trim line.toList).head? = some ':'
  · exact .inr hcommand
  · exact .inl ⟨hend, fun hpending hcolon => hcommand ⟨hpending, hcolon⟩⟩

/-- A line of a statement keeps a session steady. -/
theorem IsSteady.statementLine (h : s.IsSteady) (cs : List Char) :
    (s.statementLine cs).session.IsSteady := by
  unfold Session.statementLine
  split
  · -- One more piece, which has no comment, and a space after it.
    have hpiece := (isPiece_continuedPiece cs).code
    refine ⟨by simp [prompt_eq_iff], ?_, ?_⟩
    · simp [h.code, hpiece]
    · intro _
      simp
  · -- Nothing is left pending, whether or not the statement has code.
    refine ⟨?_, ?_, ?_⟩
    · simp [prompt_eq_iff, pending_enter, continuing_enter]
    · simp [pending_enter]
    · simp [pending_enter]

/-- A line keeps a session steady. -/
theorem IsSteady.submit (h : s.IsSteady) (hend : Text.trim line.toList ≠ endOfInput.toList) :
    (s.submit line).session.IsSteady := by
  rcases takesLine_or_command hend with hline | ⟨hpending, hcolon⟩
  · rw [h.submit_eq hline]
    exact h.statementLine _
  · rw [submit_eq_command hpending hcolon, session_command]
    exact h

end Steps

/-- After any lines of which none stands for the end of the input, a session is steady. -/
theorem IsSteady.feed {s : Session} (h : s.IsSteady) {lines : List String}
    (hlines : ∀ line ∈ lines, Text.trim line.toList ≠ endOfInput.toList) :
    (s.feed lines).IsSteady := by
  induction lines generalizing s with
  | nil => exact h
  | cons line lines ih =>
      obtain ⟨hline, hrest⟩ := List.forall_mem_cons.mp hlines
      exact ih (h.submit hline) hrest

/-! ## The history -/

/-- Entering a statement only adds to the history. -/
theorem history_prefix_enter (s : Session) (statement : String) :
    s.history <+: (s.enter statement).1.history := by
  unfold enter
  split
  · exact List.prefix_rfl
  · exact List.prefix_append _ _

/-- The end of the input only adds to the history. -/
theorem history_prefix_finish (s : Session) : s.history <+: s.finish.session.history := by
  unfold finish
  simp only
  split
  · exact List.prefix_rfl
  · dsimp only
    exact history_prefix_enter { s with pending := "" } _

/-- A line of a statement only adds to the history. -/
theorem history_prefix_statementLine (s : Session) (cs : List Char) :
    s.history <+: (s.statementLine cs).session.history := by
  unfold statementLine
  split
  · exact List.prefix_rfl
  · dsimp only
    exact history_prefix_enter { s with pending := "", continuing := false } _

/-- A line only adds to the history. -/
theorem history_prefix_submit (s : Session) (line : String) :
    s.history <+: (s.submit line).session.history := by
  unfold submit
  simp only
  split
  · exact List.prefix_rfl
  split
  · exact history_prefix_finish s
  split
  · exact List.prefix_rfl
  · exact history_prefix_statementLine s _

/-- Statements stay in the history, in their order and before those that follow. -/
theorem history_prefix_feed (s : Session) (lines : List String) :
    s.history <+: (s.feed lines).history := by
  induction lines generalizing s with
  | nil => exact List.prefix_rfl
  | cons line lines ih => exact (history_prefix_submit s line).trans (ih _)

/-! ## The answer to a line -/

/-- What a session may answer to a line that does not stand for the end of the input. -/
structure Answers (s : Session) (line : String) (turn : Turn) : Prop where
  /-- A command leaves the session as it is. -/
  command : s.pending = "" → (Text.trim line.toList).head? = some ':' → turn.session = s
  /-- A completed statement enters the history, and its result alone is printed. -/
  completed : s.TakesLine line → s.Completes line →
    turn.session.history = s.history ++ [s.statementWith line] ∧
      ∀ room paint elapsed files, ∃ events,
        turn.effect.perform room paint elapsed files = .ok (events, files) ∧
          Event.printed events =
            [.out ((evaluate (room - 1) (s.statementWith line) 1).text paint ++ "\n")]
  /-- Any other line leaves the history as it is, and nothing is printed. -/
  other : s.TakesLine line → ¬s.Completes line →
    turn.session.history = s.history ∧
      ∀ room paint elapsed files, turn.effect.perform room paint elapsed files = .ok ([], files)
  /-- A session ends only with a command that leaves it, given where a statement starts. -/
  stop : turn.stop = true ↔
    s.pending = "" ∧ Command.nameOf (Text.trim line.toList) ∈ Command.leavingNames

section Answer

variable {s : Session} {line : String}

/-- Blanks around a line do not matter for whether it has code behind the pending text. -/
theorem codePart_statementWith_eq_nil_iff (h : ';' ∉ s.pending.toList) :
    codePart (s.statementWith line).toList = [] ↔ codePart (s.pending ++ line).toList = [] := by
  have hsplit : ∀ rest : List Char, codePart (s.pending.toList ++ rest) = [] ↔
      Text.Blank s.pending.toList ∧ codePart rest = [] := by
    intro rest
    rw [codePart_eq_nil_iff, codePart_eq_nil_iff, takeWhile_code_append h]
    simp [Text.Blank, or_imp, forall_and]
  rw [statementWith, String.toList_append, String.toList_append, String.toList_ofList, hsplit, hsplit,
    codePart_trim]

/-- The turn of a line that completes a statement with code. -/
theorem statementLine_of_completes (h : ';' ∉ s.pending.toList) (hline : s.Completes line) :
    s.statementLine (Text.trim line.toList) =
      ⟨⟨s.history ++ [s.statementWith line], "", false⟩, false, .evaluation (s.statementWith line)⟩ := by
  have hcode : codePart (s.statementWith line).toList ≠ [] := by
    rw [ne_eq, codePart_statementWith_eq_nil_iff h]
    exact hline.2
  have henter : enter { s with pending := "", continuing := false } (s.statementWith line) =
      (⟨s.history ++ [s.statementWith line], "", false⟩, some (s.statementWith line)) := by
    simp [enter, hcode]
  unfold statementLine
  rw [continues_trim, hline.1, if_neg (by decide), ← statementWith, henter]
  rfl

/-- The turn of a line of a statement that does not complete one. -/
theorem statementLine_of_not_completes (h : ';' ∉ s.pending.toList) (hline : ¬s.Completes line) :
    (s.statementLine (Text.trim line.toList)).session.history = s.history ∧
      (s.statementLine (Text.trim line.toList)).effect = .nothing := by
  unfold statementLine
  rw [continues_trim]
  by_cases hcontinues : continues line.toList = true
  · rw [if_pos hcontinues]
    exact ⟨rfl, rfl⟩
  · have hcode : codePart (s.statementWith line).toList = [] := by
      rw [codePart_statementWith_eq_nil_iff h]
      by_contra hcode
      exact hline ⟨by simpa using hcontinues, hcode⟩
    have henter : enter { s with pending := "", continuing := false } (s.statementWith line) =
        (⟨s.history, "", false⟩, none) := by
      simp [enter, hcode]
    rw [if_neg hcontinues, ← statementWith, henter]
    exact ⟨rfl, rfl⟩

/-- A line of a statement does not end the session. -/
theorem stop_statementLine (s : Session) (cs : List Char) : (s.statementLine cs).stop = false := by
  unfold statementLine
  split <;> rfl

/-- Every line that does not stand for the end of the input is answered so. -/
theorem IsSteady.answers (h : s.IsSteady) (hend : Text.trim line.toList ≠ endOfInput.toList) :
    s.Answers line (s.submit line) where
  command hpending hcolon := by rw [submit_eq_command hpending hcolon, session_command]
  completed hline hcompletes := by
    rw [h.submit_eq hline, statementLine_of_completes h.code hcompletes]
    refine ⟨rfl, fun room paint elapsed files => ⟨_, rfl, ?_⟩⟩
    simp [Effect.evaluationEvents]
  other hline hcompletes := by
    obtain ⟨hhistory, heffect⟩ := statementLine_of_not_completes h.code hcompletes
    rw [h.submit_eq hline]
    refine ⟨hhistory, fun room paint elapsed files => ?_⟩
    rw [heffect]
    rfl
  stop := by
    rcases takesLine_or_command hend with hline | ⟨hpending, hcolon⟩
    · rw [h.submit_eq hline, stop_statementLine]
      simp only [Bool.false_eq_true, false_iff]
      rintro ⟨hpending, hname⟩
      exact hline.2 hpending (Command.head?_of_nameOf_mem hname)
    · rw [submit_eq_command hpending hcolon, stop_command, Command.leaves_ofStatement]
      simp only [hpending, true_and]

end Answer

end Session

/-- Over every run of lines on a fresh session of which none stands for the end of the input, after each
line: the session is steady, its turn is an answer to the line, and the history so far stays in front of
all that follows. -/
theorem session_steady_and_answers {before : List String} {line : String}
    (h : ∀ typed ∈ before ++ [line], Text.trim typed.toList ≠ Session.endOfInput.toList) :
    let s := Session.fresh.feed before
    let turn := s.submit line
    turn.session.IsSteady ∧ s.Answers line turn ∧
      ∀ after, turn.session.history <+: (Session.fresh.feed (before ++ line :: after)).history := by
  intro s turn
  obtain ⟨hbefore, hline⟩ := List.forall_mem_append.mp h
  have hend := hline line List.mem_cons_self
  have hsteady : s.IsSteady := Session.isSteady_fresh.feed hbefore
  refine ⟨hsteady.submit hend, hsteady.answers hend, ?_⟩
  intro after
  have hfeed : Session.fresh.feed (before ++ line :: after) = turn.session.feed after := by
    simp only [Session.feed, List.foldl_append, List.foldl_cons, turn, s]
  rw [hfeed]
  exact Session.history_prefix_feed _ _

/-- A comment behind the backslash is dropped, a colon inside a statement opens no command, and the
statement that ends there is the second one. -/
theorem session_steady_and_answers_colon_line :
    let before := ["1", ":save a/b", "2 \\ ; more"]
    let s := Session.fresh.feed before
    let turn := s.submit " :q ; none"
    s.pending = "2 " ∧ s.prompt = "... " ∧ turn.session.IsSteady ∧ turn.stop = false ∧
      turn.session.history = ["1", "2 :q ; none"] := by
  intro before s turn
  obtain ⟨hsteady, hanswers, -⟩ :=
    session_steady_and_answers (show ∀ typed ∈ before ++ [" :q ; none"], _ by decide)
  have hpending : s.pending = "2 " := by decide
  have htakes : s.TakesLine " :q ; none" := by decide
  have hcompletes : s.Completes " :q ; none" := ⟨by decide, by decide⟩
  have hstop : ¬turn.stop = true := by
    rw [hanswers.stop]
    rintro ⟨hnone, -⟩
    rw [hpending] at hnone
    revert hnone
    decide
  refine ⟨hpending, by decide, hsteady, by simpa using hstop, ?_⟩
  rw [(hanswers.completed htakes hcompletes).1]
  decide

end Calculator
