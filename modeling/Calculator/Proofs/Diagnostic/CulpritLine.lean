import Calculator.Proofs.Evaluation.Culprit
import Calculator.Proofs.Position.Order
import Calculator.Proofs.Text.Line
import Calculator.Proofs.Token.Boundary
import Mathlib.Data.List.Induction

/-!
# The line of the culprit

Positions count lines by newlines, a diagnostic cuts its source at every line break. A fault of an
evaluation has a line between newlines that holds its culprit, and a diagnostic has the number of that
line and a caret under the column of the culprit. The line that it shows is the one of the culprit if
both ways to count agree up to there: no other line break stands on that line or before it, a carriage
return in front of a newline apart, and the culprit is not on the empty line behind a newline that ends
the text. Otherwise another line can be shown, or a part of the line that ends before the caret.
-/

set_option autoImplicit false

namespace Calculator

/-! ## Lines between newlines -/

/-- What has been passed ends with the line that is reached, up to the column that is reached. -/
theorem Position.exists_line_start (passed : List Char) :
    ∃ before left, passed = before ++ left ∧ (before = [] ∨ before.getLast? = some '\n') ∧
      '\n' ∉ left ∧ start.along passed = ⟨1 + before.count '\n', left.length + 1⟩ := by
  induction passed using List.reverseRecOn with
  | nil => exact ⟨[], [], rfl, .inl rfl, by simp, rfl⟩
  | append_singleton passed c ih =>
      obtain ⟨before, left, rfl, hbefore, hleft, hpos⟩ := ih
      have hstep : start.along (before ++ left ++ [c]) = (start.along (before ++ left)).after c :=
        along_append ..
      rw [hstep, hpos]
      by_cases hc : c = '\n'
      · subst hc
        refine ⟨before ++ left ++ ['\n'], [], by simp, .inr (by simp), by simp, ?_⟩
        rw [after_newline, List.count_append, List.count_append, List.count_eq_zero.mpr hleft]
        simp [Int.add_assoc]
      · refine ⟨before, left ++ [c], by simp, hbefore, by simpa using ⟨hleft, Ne.symm hc⟩, ?_⟩
        rw [after_of_ne hc]
        simp

/-- The line between newlines that a fault stands on: `left` stands before its position, and `right` starts
there unless the text has ended. -/
structure Fault.CulpritLine (fault : Fault) (cs before left right after : List Char) : Prop where
  text : cs = before ++ ((left ++ right) ++ after)
  opened : before = [] ∨ before.getLast? = some '\n'
  closed : after = [] ∨ after.head? = some '\n'
  unbroken : '\n' ∉ left ++ right
  pos : fault.pos = some ⟨1 + before.count '\n', left.length + 1⟩

/-- A fault at a position of a text stands on a line of it; what the position leads to starts with the rest
of that line. -/
theorem Fault.exists_culpritLine {fault : Fault} {cs rest : List Char} {pos : Position}
    (hpos : fault.pos = some pos) (h : Position.start.Reaches cs pos rest) :
    ∃ before left right after, fault.CulpritLine cs before left right after ∧ rest = right ++ after := by
  obtain ⟨passed, rfl, rfl⟩ := h
  obtain ⟨before, left, rfl, hbefore, hleft, halong⟩ := Position.exists_line_start passed
  rw [halong] at hpos
  have hsplit : rest.takeWhile (· != '\n') ++ rest.dropWhile (· != '\n') = rest :=
    List.takeWhile_append_dropWhile
  refine ⟨before, left, rest.takeWhile (· != '\n'), rest.dropWhile (· != '\n'), ?_, hsplit.symm⟩
  refine ⟨by simp [hsplit], hbefore, Text.dropWhile_ne_newline_cases rest, ?_, hpos⟩
  intro hmem
  rcases List.mem_append.mp hmem with hmem | hmem
  · exact hleft hmem
  · exact Text.newline_notMem_takeWhile rest hmem

/-! ## The diagnostic -/

namespace Report

/-- What a line of a diagnostic starts with. -/
def gutter (label : String) : String := " " ++ label ++ " | "

/-- A diagnostic with the number of a line, an excerpt and a caret. The caret line starts with a gutter
of the same width, so `column` characters of the excerpt stand before the one above the caret. -/
def layout (headline : String) (number : Int) (excerpt : List Char) (column : Nat) : String :=
  "\n".intercalate [headline, gutter (toString number) ++ String.ofList excerpt,
    gutter (Text.spaces (toString number).length) ++ Text.spaces column ++ "^"]

variable {r : Report}

/-- A source has at least one line. -/
theorem length_sourceLines_pos (r : Report) : 0 < r.sourceLines.length := by
  unfold sourceLines
  split
  · simp
  · next lines hlines => exact List.length_pos_iff.mpr hlines

/-- A report whose position is on a line of the text or below it shows some line. -/
theorem exists_excerpt {pos : Position} (hpos : r.fault.pos = some pos) (hline : 1 ≤ pos.line) :
    ∃ excerpt, r.excerpt? = some excerpt := by
  have hlength := r.length_sourceLines_pos
  obtain ⟨n, hn⟩ : ∃ n : Nat, min pos.line (r.sourceLines.length : Int) - 1 = n :=
    ⟨(min pos.line (r.sourceLines.length : Int) - 1).toNat, by omega⟩
  refine ⟨r.sourceLines.get ⟨n, by omega⟩, ?_⟩
  unfold excerpt?
  simp only [hpos, Option.map_some, Option.getD_some, hn, atPlace?_natCast]
  exact List.getElem?_eq_getElem _

/-- A report with an excerpt is laid out as headline, excerpt and caret. -/
theorem render_eq_layout (hsource : r.source ≠ "") {pos : Position} (hpos : r.fault.pos = some pos)
    {excerpt : List Char} (hexcerpt : r.excerpt? = some excerpt) :
    r.render id =
      layout (r.fault.headline id) (r.startLine + pos.line - 1) excerpt (pos.column - 1).toNat := by
  unfold render render?
  rw [if_neg hsource, hexcerpt]
  simp only [Option.map_some, Option.getD_some, renderLines, line, hpos, Option.toList_some, layout,
    caretLine, gutter, id_eq]

/-- Cutting a text at every line break finds the line between newlines that `line` is, and finds as many
lines before it as there are newlines. -/
structure LinesAgree (before line after : List Char) : Prop where
  count : (Text.physicalLines before).length = before.count '\n'
  unbroken : ∀ c ∈ line, Text.isLineBreak c = false
  nonempty : line ++ after ≠ []

/-- Where both ways to count lines agree, the line of the fault is shown. -/
theorem excerpt?_eq_some {before left right after : List Char}
    (h : r.fault.CulpritLine r.source.toList before left right after)
    (hagree : LinesAgree before (left ++ right) after) : r.excerpt? = some (left ++ right) := by
  obtain ⟨later, hlater⟩ :=
    Text.physicalLines_line_append hagree.unbroken h.closed hagree.nonempty
  have hlines : r.sourceLines = Text.physicalLines before ++ (left ++ right) :: later := by
    unfold sourceLines
    rw [h.text, Text.physicalLines_append h.opened, hlater]
    split
    · next hnil => simp at hnil
    · rfl
  -- As many lines stand before this one as its position counts.
  have hplace : min (1 + (before.count '\n' : Int)) (r.sourceLines.length : Int) - 1 =
      (Text.physicalLines before).length := by
    rw [hlines, hagree.count, List.length_append, List.length_cons, hagree.count]
    omega
  unfold excerpt?
  simp only [h.pos, Option.map_some, Option.getD_some, hplace, atPlace?_natCast]
  rw [hlines, List.getElem?_append_right (Nat.le_refl _), Nat.sub_self]
  rfl

end Report

/-- The diagnostic of an evaluation that fails has the number of the line between newlines that holds
the culprit, and its caret under the column of the culprit. It shows that line wherever cutting at
newlines and cutting at line breaks agree. Where the calls of the text do not fit, the place of the culprit is
that of a lexeme or of the end. -/
theorem render_points_at_culprit (room : Nat) {text : String} (htext : text ≠ "") (line : Int)
    {fault : Fault} (h : (evaluate room text line).outcome = .error fault) :
    ∃ before left right after excerpt,
      fault.CulpritLine text.toList before left right after ∧
      (TextFits (room - 2) text → fault.cause.Blames (right ++ after)) ∧
      (¬TextFits (room - 2) text → fault.cause = .nestingTooDeep Parser.defaultLimit ∧
        ∃ kind, Token.kindAt? (right ++ after) = some kind) ∧
      ((evaluate room text line).report fault).render id =
        Report.layout (fault.headline id) (line + before.count '\n') excerpt left.length ∧
      (Report.LinesAgree before (left ++ right) after → excerpt = left ++ right) := by
  obtain ⟨pos, rest, hfault, hreaches, -, hblames, hover⟩ := exists_reaches_of_textValue h
  obtain ⟨before, left, right, after, hculprit, rfl⟩ := Fault.exists_culpritLine hfault hreaches
  have hpos : ((evaluate room text line).report fault).fault.pos = _ := hculprit.pos
  obtain ⟨excerpt, hexcerpt⟩ := Report.exists_excerpt hpos (by simp only; omega)
  refine ⟨before, left, right, after, excerpt, hculprit, hblames, hover, ?_, ?_⟩
  · rw [Report.render_eq_layout htext hpos hexcerpt]
    have hnumber : line + (1 + (before.count '\n' : Int)) - 1 = line + before.count '\n' := by
      omega
    have hcolumn : ((left.length : Int) + 1 - 1).toNat = left.length := by
      omega
    show Report.layout _ (line + (1 + (before.count '\n' : Int)) - 1) excerpt
      ((left.length : Int) + 1 - 1).toNat = _
    rw [hnumber, hcolumn]
    rfl
  · intro hagree
    have hline := Report.excerpt?_eq_some (r := (evaluate room text line).report fault) hculprit hagree
    rw [hexcerpt] at hline
    exact Option.some.inj hline

/-- The closing on the second line is the culprit, and both ways to count lines agree before it. -/
theorem render_points_at_culprit_second_line :
    ∃ fault, (evaluate 1013 ";x\r\n)" 7).outcome = .error fault ∧
      (∃ before left right after excerpt,
        fault.CulpritLine ";x\r\n)".toList before left right after ∧
        fault.cause.Blames (right ++ after) ∧
        ((evaluate 1013 ";x\r\n)" 7).report fault).render id =
          Report.layout (fault.headline id) (7 + before.count '\n') excerpt left.length ∧
        (Report.LinesAgree before (left ++ right) after → excerpt = left ++ right)) ∧
      fault.CulpritLine ";x\r\n)".toList [';', 'x', '\r', '\n'] [] [')'] [] ∧
      Report.LinesAgree [';', 'x', '\r', '\n'] [')'] [] := by
  have hscan : Token.scan ";x\r\n)" = .ok ⟨[⟨.rparen, ⟨2, 1⟩, none⟩], ⟨2, 2⟩⟩ := by
    refine (Token.scanFrom_comment .start _).trans ?_
    show Token.scanFrom ⟨1, 4⟩ ['\n', ')'] = _
    rw [Token.scanFrom_gap _ _ (by decide),
      Token.scanFrom_symbol _ _ (by decide) (by decide) (by decide)
        (rfl : Token.ofSymbol? ')' = some .rparen), Token.scanFrom]
    rfl
  have houtcome : (evaluate 1013 ";x\r\n)" 7).outcome =
      .error ⟨.unexpectedToken "RPAREN" (some "a number, '(' or a unary operator"), some ⟨2, 1⟩⟩ := by
    show textValue 1012 ";x\r\n)" = _
    rw [textValue, hscan]
    rfl
  obtain ⟨before, left, right, after, excerpt, hline, hblames, -, hrender, hexcerpt⟩ :=
    render_points_at_culprit 1013 (by decide) 7 houtcome
  refine ⟨_, houtcome, ⟨before, left, right, after, excerpt, hline, ?_, hrender, hexcerpt⟩,
    ⟨by decide, by decide, by decide, by decide, by decide⟩, by decide, ?_, by decide⟩
  · exact hblames (textFits_of_le (by omega) _)
  · intro c hc
    rw [List.mem_singleton.mp hc]
    decide

/-- A carriage return alone ends a line of the excerpt but no line of the positions: a part of the line
without the culprit is shown. -/
theorem render_shows_part_of_line :
    ∃ fault, (evaluate 1013 "1 +\r)" 1).outcome = .error fault ∧
      fault.CulpritLine "1 +\r)".toList [] ['1', ' ', '+', '\r'] [')'] [] ∧
      fault.cause.Blames [')'] ∧
      ((evaluate 1013 "1 +\r)" 1).report fault).render id =
        "error: Unexpected token RPAREN, expected a number, '(' or a unary operator [parser]\n" ++
        " 1 | 1 +\n   |     ^" ∧
      ((evaluate 1013 "1 +\r)" 1).report fault).render id ≠
        Report.layout (fault.headline id) 1 ['1', ' ', '+', '\r', ')'] 4 := by
  have hvalue : (Numeral.take ['1', ' ', '+', '\r', ')']).1.value? =
      some (.ofBits 0x3FF0000000000000) := by
    decide +kernel
  have hscan : Token.scan "1 +\r)" = .ok ⟨[⟨.number, ⟨1, 1⟩, some (.ofBits 0x3FF0000000000000)⟩,
      ⟨.plus, ⟨1, 3⟩, none⟩, ⟨.rparen, ⟨1, 5⟩, none⟩], ⟨1, 6⟩⟩ := by
    refine (Token.scanFrom_number .start _ (by decide) (by decide) hvalue).trans ?_
    show (Token.scanFrom ⟨1, 2⟩ [' ', '+', '\r', ')']).map _ = _
    rw [Token.scanFrom_gap _ _ (by decide),
      Token.scanFrom_symbol _ _ (by decide) (by decide) (by decide)
        (rfl : Token.ofSymbol? '+' = some .plus),
      Token.scanFrom_gap _ _ (by decide),
      Token.scanFrom_symbol _ _ (by decide) (by decide) (by decide)
        (rfl : Token.ofSymbol? ')' = some .rparen), Token.scanFrom]
    rfl
  have houtcome : (evaluate 1013 "1 +\r)" 1).outcome =
      .error ⟨.unexpectedToken "RPAREN" (some "a number, '(' or a unary operator"), some ⟨1, 5⟩⟩ := by
    show textValue 1012 "1 +\r)" = _
    rw [textValue, hscan]
    rfl
  refine ⟨_, houtcome, ⟨by decide, by decide, by decide, by decide, by decide⟩, ?_, by decide,
    by decide⟩
  exact ⟨by decide, .rparen, by decide, rfl⟩

end Calculator
