import Calculator.Batch
import Calculator.Proofs.Event.Printed
import Mathlib.Data.List.Forall2

/-!
# What a batch prints

A batch prints one block for each of its files, in their order: the results of a script, or the report
that a file cannot be opened. A script that fails on some line goes on with the next line, and a file that
cannot be opened leaves those after it as they are; it only shows in the status.

A file whose bytes are not text, or a path that no file can have, is neither: the batch is aborted there,
without a status (`exists_run_eq_ok_iff`).

Five calls lead from a batch to the value of a line, and what is left of the room is for that value.
-/

set_option autoImplicit false

namespace Calculator

namespace Batch

/-! ## The blocks -/

/-- What is printed for a logical line: one line of output with the result, or a block for the error output
that names the file and shows the diagnostic. `room` is that for the value. -/
inductive ShowsLine (room : Nat) (paint : String → String) (name : String) (l : LogicalLine) :
    List Event → Prop where
  | result {value : Float} (h : textValue room l.text = .ok value) :
      ShowsLine room paint name l
        [.out (l.text ++ " [" ++ toString l.line ++ "]: " ++ Number.display value ++ "\n")]
  | failure {fault : Fault} (h : textValue room l.text = .error fault) :
      ShowsLine room paint name l
        [.err ("Error in " ++ name ++ ":\n"),
          .err (Report.render paint ⟨fault, l.text, l.line⟩ ++ "\n")]

/-- What is printed for a file, given what opening it yields: the header, what is printed for each logical
line, and an empty line; or one report if it cannot be opened. -/
inductive ShowsFile (room : Nat) (paint : String → String) (path : String) :
    Except FileError ByteArray → List Event → Prop where
  | script {bytes : ByteArray} {text : String} {blocks : List (List Event)}
      (htext : String.fromUTF8? bytes = some text)
      (hblocks : List.Forall₂ (ShowsLine room paint (baseName path))
        (logicalLines (String.ofList (Text.unifyNewlines text.toList))) blocks) :
      ShowsFile room paint path (.ok bytes)
        (.out ("--- Results from " ++ baseName path ++ " ---\n") :: (blocks.flatten ++ [.out "\n"]))
  | unreadable (e : FileError) :
      ShowsFile room paint path (.error e)
        [.err ("error: cannot read '" ++ path ++ "': " ++ e.reason ++ "\n")]

/-- A path that a file can have, where the file is text if it can be opened. -/
structure IsProcessable (path : String) (contents : Except FileError ByteArray) : Prop where
  named : '\x00' ∉ path.toList
  decodes : ∀ bytes, contents = .ok bytes → (String.fromUTF8? bytes).isSome

/-! ## One file -/

/-- A line shows its value or its fault. -/
theorem showsLine_lineEvents (room : Nat) (paint : String → String) (name : String)
    (l : LogicalLine) :
    ShowsLine (room - 1) paint name l (lineEvents paint name (evaluate room l.text l.line)) := by
  cases h : textValue (room - 1) l.text with
  | ok value =>
      have hevents : lineEvents paint name (evaluate room l.text l.line) =
          [.out (l.text ++ " [" ++ toString l.line ++ "]: " ++ Number.display value ++ "\n")] := by
        simp only [lineEvents, evaluate, h]
        rfl
      rw [hevents]
      exact .result h
  | error fault =>
      have hevents : lineEvents paint name (evaluate room l.text l.line) =
          [.err ("Error in " ++ name ++ ":\n"),
            .err (Report.render paint ⟨fault, l.text, l.line⟩ ++ "\n")] := by
        simp only [lineEvents, evaluate, h, Evaluation.report]
      rw [hevents]
      exact .failure h

/-- What is printed for a line is not for the log. -/
theorem printed_lineEvents (paint : String → String) (name : String) (e : Evaluation) :
    Event.printed (lineEvents paint name e) = lineEvents paint name e := by
  unfold lineEvents
  split <;> rfl

/-- A script prints its header, what its lines show, and an empty line. -/
theorem printed_scriptEvents (room : Nat) (paint : String → String) (name text : String) :
    Event.printed (scriptEvents room paint name text) =
      .out ("--- Results from " ++ name ++ " ---\n") ::
        (((logicalLines (String.ofList (Text.unifyNewlines text.toList))).map fun l =>
          lineEvents paint name (evaluate (room - 3) l.text l.line)).flatten ++ [.out "\n"]) := by
  simp only [scriptEvents, Event.printed_cons_out, Event.printed_append, Event.printed_flatMap,
    printed_lineEvents, Event.printed_ofEvaluation, Event.printed_nil]
  simp [evaluateLines, List.flatMap_def, List.map_map, Function.comp_def, Nat.sub_sub]

/-- A file that can be processed prints its block, and counts as complete if it could be opened. -/
theorem IsProcessable.exists_ofFile {path : String} {contents : Except FileError ByteArray}
    (h : IsProcessable path contents) (room : Nat) (paint : String → String) :
    ∃ part, ofFile room paint path contents = .ok part ∧
      ShowsFile (room - 4) paint path contents (Event.printed part.events) ∧
      (part.complete = false ↔ ∃ e, contents = .error e) := by
  have hpath : Abort.checkPath path = .ok () := by simp [Abort.checkPath, h.named]
  cases contents with
  | error e =>
      refine ⟨⟨openingEvent path :: failureEvents path e, false⟩, ?_, .unreadable e, by simp⟩
      simp only [ofFile, hpath]
      rfl
  | ok bytes =>
      obtain ⟨text, htext⟩ := Option.isSome_iff_exists.mp (h.decodes bytes rfl)
      refine ⟨⟨openingEvent path :: scriptEvents room paint (baseName path) text, true⟩, ?_, ?_, by simp⟩
      · simp only [ofFile, hpath, htext]
        rfl
      · simp only [openingEvent, Event.printed_cons_log, printed_scriptEvents]
        apply ShowsFile.script htext
        rw [List.forall₂_map_right_iff, List.forall₂_same]
        intro l _
        exact showsLine_lineEvents (room - 3) paint (baseName path) l

/-- A file that cannot be processed aborts the batch. -/
theorem exists_abort_of_not_isProcessable {path : String} {contents : Except FileError ByteArray}
    (h : ¬IsProcessable path contents) (room : Nat) (paint : String → String) :
    ∃ abort, ofFile room paint path contents = .error abort := by
  by_cases hnamed : '\x00' ∈ path.toList
  · refine ⟨.nullInPath, ?_⟩
    simp only [ofFile, Abort.checkPath, List.contains_iff_mem.mpr hnamed, if_true]
    rfl
  · have hpath : Abort.checkPath path = .ok () := by simp [Abort.checkPath, hnamed]
    cases contents with
    | error e => exact absurd ⟨hnamed, by simp⟩ h
    | ok bytes =>
        cases htext : String.fromUTF8? bytes with
        | none =>
            refine ⟨.notText, ?_⟩
            simp only [ofFile, hpath, htext]
            rfl
        | some text =>
            refine absurd ⟨hnamed, ?_⟩ h
            rintro _ ⟨⟩
            simp [htext]

/-! ## All files -/

section Runs

variable (room : Nat) (paint : String → String) {read : String → Except FileError ByteArray}
  {paths : List String}

/-- Files that can all be processed are processed to the end. -/
theorem exists_run_of_isProcessable (h : ∀ path ∈ paths, IsProcessable path (read path)) :
    ∃ batch blocks, run room paint read paths = .ok batch ∧
      List.Forall₂ (fun path => ShowsFile (room - 5) paint path (read path)) paths blocks ∧
      Event.printed batch.events = blocks.flatten ∧
      (batch.complete = false ↔ ∃ path ∈ paths, ∃ e, read path = .error e) := by
  induction paths with
  | nil => exact ⟨⟨[], true⟩, [], rfl, .nil, rfl, by simp⟩
  | cons path paths ih =>
      obtain ⟨hpath, hrest⟩ := List.forall_mem_cons.mp h
      obtain ⟨part, hpart, hshows, hcomplete⟩ := hpath.exists_ofFile (room - 1) paint
      obtain ⟨others, blocks, hothers, hblocks, hprinted, hall⟩ := ih hrest
      refine ⟨⟨part.events ++ others.events, part.complete && others.complete⟩,
        Event.printed part.events :: blocks, ?_, .cons hshows hblocks, ?_, ?_⟩
      · simp only [run, hpart, hothers]
        rfl
      · rw [Event.printed_append, hprinted, List.flatten_cons]
      · rw [Bool.and_eq_false_iff, hcomplete, hall]
        simp

/-- A batch comes to its end if and only if all of its files can be processed. -/
theorem exists_run_eq_ok_iff :
    (∃ batch, run room paint read paths = .ok batch) ↔ ∀ path ∈ paths, IsProcessable path (read path) := by
  constructor
  · induction paths with
    | nil => simp
    | cons path paths ih =>
        rintro ⟨batch, hbatch⟩
        simp only [run] at hbatch
        by_cases hpath : IsProcessable path (read path)
        · obtain ⟨part, hpart, -⟩ := hpath.exists_ofFile (room - 1) paint
          cases hothers : run room paint read paths with
          | error abort =>
              rw [hpart, hothers] at hbatch
              cases hbatch
          | ok others => exact List.forall_mem_cons.mpr ⟨hpath, ih ⟨others, hothers⟩⟩
        · obtain ⟨abort, habort⟩ := exists_abort_of_not_isProcessable hpath (room - 1) paint
          rw [habort] at hbatch
          cases hbatch
  · intro h
    obtain ⟨batch, -, hbatch, -⟩ := exists_run_of_isProcessable room paint h
    exact ⟨batch, hbatch⟩

end Runs

end Batch

/-- For every list of paths and whatever opening them yields, a batch comes to its end if and only if every
file that can be opened is text and no path holds the null character. Then it has printed one block for
each path, in their order, and its status is one if and only if some file could not be opened. -/
theorem batch_reports_every_file (room : Nat) (paint : String → String)
    (read : String → Except FileError ByteArray) (paths : List String) :
    ((∃ batch, Batch.run room paint read paths = .ok batch) ↔
      ∀ path ∈ paths, Batch.IsProcessable path (read path)) ∧
    ∀ batch, Batch.run room paint read paths = .ok batch →
      (∃ blocks, List.Forall₂ (fun path => Batch.ShowsFile (room - 5) paint path (read path)) paths blocks ∧
        Event.printed batch.events = blocks.flatten) ∧
      (batch.status = 1 ↔ ∃ path ∈ paths, ∃ e, read path = .error e) := by
  refine ⟨Batch.exists_run_eq_ok_iff room paint, ?_⟩
  intro batch hbatch
  have hprocessable := (Batch.exists_run_eq_ok_iff room paint).mp ⟨batch, hbatch⟩
  obtain ⟨batch', blocks, hbatch', hblocks, hprinted, hcomplete⟩ :=
    Batch.exists_run_of_isProcessable room paint hprocessable
  rw [hbatch] at hbatch'
  cases hbatch'
  refine ⟨⟨blocks, hblocks, hprinted⟩, ?_⟩
  rw [← hcomplete, Batch.status]
  cases batch.complete <;> simp

/-- A missing file and a directory are reported, and the script after them is still evaluated. -/
theorem batch_reports_every_file_missing_and_directory :
    let files : FileTree := ⟨[(["d"], .directory), (["f"], .file ⟨#[0x31, 0x0A]⟩)]⟩
    ∃ batch block, Batch.run 1000 id files.read ["m", "d", "f"] = .ok batch ∧ batch.status = 1 ∧
      Event.printed batch.events =
        .err "error: cannot read 'm': No such file or directory\n" ::
          .err "error: cannot read 'd': Is a directory\n" :: block ∧
      Batch.ShowsFile 995 id "f" (.ok ⟨#[0x31, 0x0A]⟩) block := by
  intro files
  have hmissing : files.read "m" = .error .notFound := rfl
  have hdirectory : files.read "d" = .error .isDirectory := rfl
  have hfile : files.read "f" = .ok ⟨#[0x31, 0x0A]⟩ := rfl
  have hprocessable : ∀ path ∈ ["m", "d", "f"], Batch.IsProcessable path (files.read path) := by
    simp only [List.forall_mem_cons, hmissing, hdirectory, hfile]
    refine ⟨⟨by decide, by simp⟩, ⟨by decide, by simp⟩, ⟨by decide, ?_⟩, by simp⟩
    rintro _ ⟨⟩
    decide
  obtain ⟨hends, hreports⟩ := batch_reports_every_file 1000 id files.read ["m", "d", "f"]
  obtain ⟨batch, hbatch⟩ := hends.mpr hprocessable
  obtain ⟨⟨blocks, hblocks, hprinted⟩, hstatus⟩ := hreports batch hbatch
  have hone := hstatus.mpr ⟨"m", by simp, _, hmissing⟩
  -- The three blocks, in the order of the paths.
  cases hblocks with
  | cons hfirst hblocks =>
    cases hblocks with
    | cons hsecond hblocks =>
      cases hblocks with
      | @cons _ block _ _ hthird hblocks =>
        cases hblocks
        rw [hmissing] at hfirst
        rw [hdirectory] at hsecond
        rw [hfile] at hthird
        cases hfirst
        cases hsecond
        exact ⟨batch, block, hbatch, hone, by simpa [FileError.reason] using hprinted, hthird⟩

/-- A file whose bytes are not text aborts the batch, and the file after it is not evaluated. -/
theorem batch_aborts_at_undecodable_file :
    let files : FileTree := ⟨[(["bad"], .file ⟨#[0xFF]⟩), (["good"], .file ⟨#[0x31, 0x0A]⟩)]⟩
    files.read "bad" = .ok ⟨#[0xFF]⟩ ∧ files.read "good" = .ok ⟨#[0x31, 0x0A]⟩ ∧
      Batch.run 1000 id files.read ["bad", "good"] = .error .notText := by
  intro files
  have hbad : files.read "bad" = .ok ⟨#[0xFF]⟩ := rfl
  have htext : String.fromUTF8? ⟨#[0xFF]⟩ = none := by decide
  have hpath : Abort.checkPath "bad" = .ok () := rfl
  refine ⟨hbad, rfl, ?_⟩
  simp only [Batch.run, Batch.ofFile, hbad, hpath, htext]
  rfl

end Calculator
