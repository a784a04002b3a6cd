import Calculator.Proofs.Evaluation.Calls
import Calculator.Proofs.FileTree.Written
import Calculator.Proofs.SavePath.Stem
import Calculator.Proofs.Session.Statements
import Calculator.Session.Effect

/-!
# A saved session as a script

A session is saved with one statement on each line. Read back as a script, the file has these lines
again if no statement is broken into several lines, and each of them is a logical line of its own if none
goes on with the next. Then evaluating the script gives the verdicts of the session in their order.
Plain lines lead to such statements only. A line with a second backslash at its end can lead to another
one, which swallows the statement after it when the script is read.

A script is evaluated by two calls more than a statement by itself. So a statement whose calls just fit may
count as nested too deep when it is read back.
-/

set_option autoImplicit false

namespace Calculator

/-! ## The script of some statements -/

/-- Statements that can stand on lines of their own are the logical lines of those lines. -/
theorem LogicalLine.verdicts_collect {entries : List String}
    (hreplayable : ∀ entry ∈ entries, Session.IsReplayable entry.toList)
    (hcode : ∀ entry ∈ entries, codePart entry.toList ≠ [])
    (hreading : ∀ entry ∈ entries, reading (Text.trim entry.toList) = reading entry.toList)
    (room number first : Nat) :
    verdicts room (collect number [] first (entries.map String.toList)) =
      entries.map fun entry => (evaluate room entry 1).verdict := by
  induction entries generalizing number first with
  | nil => rfl
  | cons entry entries ih =>
      have hends := (hreplayable entry List.mem_cons_self).ends
      have hsome : (codePart (Text.trim entry.toList)).isEmpty = false := by
        rw [codePart_trim, List.isEmpty_eq_false_iff]
        exact hcode entry List.mem_cons_self
      have hverdict : (evaluate room (String.ofList (Text.trim entry.toList)) number).verdict =
          (evaluate room entry 1).verdict := by
        apply verdict_evaluate_eq
        rw [String.toList_ofList]
        exact congrArg Prod.fst (hreading entry List.mem_cons_self)
      have htail := ih (fun e he => hreplayable e (List.mem_cons_of_mem entry he))
        (fun e he => hcode e (List.mem_cons_of_mem entry he))
        (fun e he => hreading e (List.mem_cons_of_mem entry he)) (number + 1) number
      -- The line does not go on, so it is a logical line by itself.
      rw [List.map_cons, collect]
      simp only [hends, List.isEmpty_nil, if_true, List.nil_append, ofPieces, joinPieces_singleton,
        hsome, Bool.not_false, Bool.false_eq_true, if_false]
      rw [verdicts, List.map_append, List.map_cons, List.map_cons, hverdict]
      exact congrArg _ htail

namespace Session

variable {s : Session}

/-- The transcript has one statement on each line. -/
theorem toList_transcript (s : Session) :
    s.transcript.toList = Text.unlines (s.history.map String.toList) := by
  simp [transcript, Text.unlines, String.toList_join, List.flatMap_map]

/-- Evaluating the transcript as a script gives the verdicts on the statements, by two calls more. -/
theorem verdicts_evaluateLines_transcript (room : Nat) {lines : List String} (hlines : s.ComesFrom lines)
    (h : ∀ entry ∈ s.history, IsReplayable entry.toList) :
    (evaluateLines room (String.ofList (Text.unifyNewlines s.transcript.toList))).map
      Evaluation.verdict = s.history.map fun entry => (evaluate (room - 2) entry 1).verdict := by
  have hunbroken : ∀ line ∈ s.history.map String.toList, ∀ c ∈ line, Text.isLineBreak c = false := by
    intro line hline
    obtain ⟨entry, hentry, rfl⟩ := List.mem_map.mp hline
    exact (h entry hentry).unbroken
  have hphysical : Text.physicalLines (Text.unlines (s.history.map String.toList)) =
      s.history.map String.toList := Text.physicalLines_unlines hunbroken
  have hverdicts := LogicalLine.verdicts_collect h hlines.code
    (fun entry hentry => (hlines.history entry hentry).reading_trim) (room - 2) 1 0
  unfold evaluateLines logicalLines
  rw [List.map_map, String.toList_ofList, toList_transcript, Text.unifyNewlines_unlines hunbroken,
    hphysical]
  exact hverdicts

/-! ## Saving -/

/-- Only a save command writes, and what it writes is the transcript. -/
theorem contents_of_submit {line path contents : String}
    (h : (s.submit line).effect = .save path contents) : contents = s.transcript := by
  unfold submit at h
  simp only at h
  split at h
  · cases h
  split at h
  · unfold finish at h
    simp only at h
    split at h <;> cases h
  split at h
  · unfold command at h
    simp only at h
    split at h <;> cases h
    rfl
  · unfold statementLine at h
    split at h
    · cases h
    · simp only at h
      generalize (enter _ _).2 = entered at h
      cases entered <;> cases h

end Session

/-- Saving reports success exactly if the path can be opened and the file is written. -/
theorem Effect.perform_save_eq_ok_iff {path contents : String} {room : Nat} {paint : String → String}
    {elapsed : Float} {files after : FileTree} :
    (Effect.save path contents).perform room paint elapsed files =
        .ok ([Effect.saveEvent path none], after) ↔
      Abort.checkPath path = .ok () ∧ files.write path contents = .ok after := by
  simp only [Effect.perform]
  cases Abort.checkPath path with
  | error abort => simp [bind, Except.bind]
  | ok _ =>
      cases files.write path contents with
      | ok written => simp [bind, Except.bind, pure, Except.pure]
      | error e => simp [bind, Except.bind, pure, Except.pure, Effect.saveEvent]

/-- Saving to a path that can be located writes the file. -/
theorem Effect.perform_save_of_locate {path : String} {files : FileTree} {place : FilePlace}
    (hcheck : Abort.checkPath path = .ok ()) (hlocate : files.locate path = .ok place)
    (room : Nat) (paint : String → String) (elapsed : Float) (contents : String) :
    (Effect.save path contents).perform room paint elapsed files =
      .ok ([Effect.saveEvent path none], files.insert place (.file contents.toUTF8)) := by
  rw [Effect.perform_save_eq_ok_iff, FileTree.write, hlocate]
  exact ⟨hcheck, rfl⟩

/-- A text that is encoded is read back. -/
theorem fromUTF8?_toUTF8 (text : String) : String.fromUTF8? text.toUTF8 = some text := by
  unfold String.fromUTF8?
  rw [String.toUTF8_eq_toByteArray, dif_pos text.isValidUTF8]
  rfl

/-! ## Verdicts with more and with less room -/

/-- The verdict on a text that counts as nested too deep. -/
def Evaluation.tooDeepVerdict : Except (String × String) Float :=
  .error ((Cause.nestingTooDeep Parser.defaultLimit).kind,
    (Cause.nestingTooDeep Parser.defaultLimit).message)

/-- Wherever the calls of a text fit, it has the same verdict. -/
theorem verdict_evaluate_of_textFits {room room' : Nat} {text : String} (h : TextFits (room - 2) text)
    (h' : TextFits (room' - 2) text) (line : Int) :
    (evaluate room text line).verdict = (evaluate room' text line).verdict := by
  have hvalue : textValue (room - 1) text = textValue (room' - 1) text :=
    textValue_eq_of_textFits h h'
  simp only [Evaluation.verdict, evaluate, hvalue]

/-- Where the calls of a text do not fit, the verdict is that it is nested too deep. -/
theorem verdict_evaluate_of_not_textFits {room : Nat} {text : String} (h : ¬TextFits (room - 2) text)
    (line : Int) : (evaluate room text line).verdict = Evaluation.tooDeepVerdict := by
  have h' : ¬TextFits (room - 1 - 1) text := h
  obtain ⟨tokens, -, t, -, hvalue⟩ := textValue_of_not_textFits h'
  simp only [Evaluation.verdict, evaluate, hvalue]
  rfl

/-- Saving a session writes a file that can be read as a script. Where each statement can stand on a line
of its own, the script has as many logical lines as the session has statements, and evaluating it gives
their verdicts in order: the same value, or a fault of the same name and wording, wherever there is room for
the calls of the statement in both evaluations. A statement for whose calls there is no room in the script
counts as nested too deep. Where the lines that were entered are plain, each statement can stand on a line
of its own; and with room for the calls that the limit on groups allows, the calls of all statements fit. -/
theorem saved_session_replays (lines : List String) {line path contents : String}
    {atSave : Nat} {paint : String → String} {elapsed : Float} {files after : FileTree}
    (hsave : ((Session.fresh.feed lines).submit line).effect = .save path contents)
    (hwritten : (Effect.save path contents).perform atSave paint elapsed files =
      .ok ([Effect.saveEvent path none], after)) (room room' : Nat) :
    let history := (Session.fresh.feed lines).history
    (∃ bytes text, after.read path = .ok bytes ∧ String.fromUTF8? bytes = some text ∧
      ((∀ entry ∈ history, Session.IsReplayable entry.toList) →
        let results := evaluateLines room (String.ofList (Text.unifyNewlines text.toList))
        results.length = history.length ∧
          (∀ (k : Nat) (entry : String), history[k]? = some entry →
            ∃ result, results[k]? = some result ∧
              (TextFits (room - 4) entry → TextFits (room' - 2) entry →
                result.verdict = (evaluate room' entry 1).verdict) ∧
              (¬TextFits (room - 4) entry → result.verdict = Evaluation.tooDeepVerdict)) ∧
          (1015 ≤ room → 1013 ≤ room' →
            results.map Evaluation.verdict =
              history.map fun entry => (evaluate room' entry 1).verdict))) ∧
      ((∀ typed ∈ lines, Session.IsPlain typed) →
        ∀ entry ∈ history, Session.IsReplayable entry.toList) := by
  intro history
  have hlines := Session.comesFrom_feed lines
  have hread := FileTree.read_write (Effect.perform_save_eq_ok_iff.mp hwritten).2
  refine ⟨⟨contents.toUTF8, contents, hread, fromUTF8?_toUTF8 contents, ?_⟩, ?_⟩
  · intro hreplayable results
    have hverdicts := Session.verdicts_evaluateLines_transcript room hlines hreplayable
    rw [← Session.contents_of_submit hsave] at hverdicts
    refine ⟨by simpa using congrArg List.length hverdicts, ?_, ?_⟩
    · intro k entry hentry
      have hresult := congrArg (·[k]?) hverdicts
      simp only [List.getElem?_map] at hresult
      rw [hentry, Option.map_some, Option.map_eq_some_iff] at hresult
      obtain ⟨result, hresult, hverdict⟩ := hresult
      refine ⟨result, hresult, fun hfits hfits' => ?_, fun hover => ?_⟩
      · rw [hverdict]
        exact verdict_evaluate_of_textFits hfits hfits' 1
      · rw [hverdict]
        exact verdict_evaluate_of_not_textFits hover 1
    · intro hroom hroom'
      refine hverdicts.trans (List.map_congr_left fun entry _ => ?_)
      exact verdict_evaluate_of_textFits (textFits_of_le (by omega) entry)
        (textFits_of_le (by omega) entry) 1
  · intro hplain entry hentry
    exact (hlines.history entry hentry).isReplayable hplain

/-- A continued statement, one with a fault and one that the end of the input completes are saved on three
lines, and these have the verdicts of the statements. -/
theorem saved_session_replays_three_statements :
    let lines := ["1 + \\ ; goes on", "2", ":h", " 3 / 0 ; none", "4\\", "EOF"]
    let contents := "1 + 2\n3 / 0 ; none\n4\n"
    let history := (Session.fresh.feed lines).history
    history = ["1 + 2", "3 / 0 ; none", "4"] ∧
      ((Session.fresh.feed lines).submit ":w s").effect = .save "s.arith" contents ∧
      ∃ after, (Effect.save "s.arith" contents).perform 1000 id 0 .empty =
          .ok ([Effect.saveEvent "s.arith" none], after) ∧
        ∃ bytes text, after.read "s.arith" = .ok bytes ∧ String.fromUTF8? bytes = some text ∧
          let results := evaluateLines 1015 (String.ofList (Text.unifyNewlines text.toList))
          results.length = history.length ∧
            results.map Evaluation.verdict =
              history.map fun entry => (evaluate 1015 entry 1).verdict := by
  intro lines contents history
  have hpath : savePath "s" = "s.arith" := savePath_eq_append (by decide)
  have hsave : ((Session.fresh.feed lines).submit ":w s").effect = .save "s.arith" contents := by
    rw [← hpath]
    rfl
  have hlocate : FileTree.empty.locate "s.arith" = .ok ["s.arith"] := by decide
  have hwritten := Effect.perform_save_of_locate (by decide) hlocate 1000 id 0 contents
  obtain ⟨⟨bytes, text, hread, htext, hreplay⟩, hplain⟩ :=
    saved_session_replays lines hsave hwritten 1015 1015
  obtain ⟨hlength, -, hverdicts⟩ := hreplay (hplain (by decide))
  exact ⟨by decide, hsave, _, hwritten, bytes, text, hread, htext, hlength,
    hverdicts le_rfl (by omega)⟩

/-- A second backslash at the end of a line stays in the statement, so the line that it is saved on goes
on with the next one. -/
theorem saved_session_merges_statements :
    let s := Session.fresh.feed ["1 \\\\", "", "2"]
    let contents := "1 \\ \n2\n"
    s.history = ["1 \\ ", "2"] ∧ (s.submit ":save s").effect = .save "s.arith" contents ∧
      ∃ after bytes text,
        (Effect.save "s.arith" contents).perform 1000 id 0 .empty =
          .ok ([Effect.saveEvent "s.arith" none], after) ∧
        after.read "s.arith" = .ok bytes ∧ String.fromUTF8? bytes = some text ∧
        ∀ room, (evaluateLines room (String.ofList (Text.unifyNewlines text.toList))).length ≠
          s.history.length := by
  intro s contents
  have hpath : savePath "s" = "s.arith" := savePath_eq_append (by decide)
  have hsave : (s.submit ":save s").effect = .save "s.arith" contents := by
    rw [← hpath]
    rfl
  have hlocate : FileTree.empty.locate "s.arith" = .ok ["s.arith"] := by decide
  have hwritten := Effect.perform_save_of_locate (by decide) hlocate 1000 id 0 contents
  have hread := FileTree.read_write (Effect.perform_save_eq_ok_iff.mp hwritten).2
  refine ⟨by decide, hsave, _, _, _, hwritten, hread, fromUTF8?_toUTF8 contents, fun room => ?_⟩
  rw [evaluateLines, List.length_map]
  decide

end Calculator
