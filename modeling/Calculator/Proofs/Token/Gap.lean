import Calculator.Proofs.Token.Boundary
import Mathlib.Data.List.Induction
import Mathlib.Data.List.TakeWhile

/-!
# Texts with a gap between them

Two texts with a gap between them are scanned as each of them is scanned alone: first come the tokens of the
first text, then those of the second, moved to where the second text stands. If scanning the first text meets
a fault, that is the fault; otherwise a fault of the second text is, and it moves along.

The gap may hold separating characters and whole comments. It must not be empty, for a lexeme could go on
across the seam, and the first text must not leave a comment open, which would hide the gap and the start of
the second text. Then the first character of the gap ends what stands before it (`scanFrom_append`), the gap
itself brings nothing (`scanFrom_closedGap`), and the second text starts at the position behind the gap.
-/

set_option autoImplicit false

namespace Calculator

/-! ## The last line of a text -/

namespace Text

/-- The part of a text after its last newline. -/
def lastLine (cs : List Char) : List Char := (cs.reverse.takeWhile (· != '\n')).reverse

/-- Behind a newline, the last line is empty. -/
theorem lastLine_concat_newline (cs : List Char) : lastLine (cs ++ ['\n']) = [] := by
  simp [lastLine]

/-- Any other character is added to the last line. -/
theorem lastLine_concat_of_ne {c : Char} (h : c ≠ '\n') (cs : List Char) :
    lastLine (cs ++ [c]) = lastLine cs ++ [c] := by
  simp [lastLine, h]

/-- Text without a newline is added to the last line. -/
theorem lastLine_append_of_notMem {after : List Char} (h : '\n' ∉ after) (before : List Char) :
    lastLine (before ++ after) = lastLine before ++ after := by
  have hpass : ∀ c ∈ after.reverse, (c != '\n') = true := by
    intro c hc
    rw [bne_iff_ne]
    rintro rfl
    exact h (List.mem_reverse.mp hc)
  rw [lastLine, List.reverse_append, List.takeWhile_append_of_pos hpass, List.reverse_append,
    List.reverse_reverse]
  rfl

end Text

/-- A text whose last line has no comment leaves no comment open. -/
theorem Token.commentsClosed_of_lastLine {cs : List Char} (h : ';' ∉ Text.lastLine cs) :
    CommentsClosed cs := by
  rintro before after rfl
  by_contra hafter
  apply h
  have hline : '\n' ∉ ';' :: after := by
    simpa using hafter
  rw [Text.lastLine_append_of_notMem hline]
  simp

namespace Position

/-- The position behind a text: as many lines down as there are newlines, as many columns along as the last
line has. -/
theorem along_start_eq (cs : List Char) :
    start.along cs = ⟨1 + cs.count '\n', 1 + (Text.lastLine cs).length⟩ := by
  induction cs using List.reverseRecOn with
  | nil => rfl
  | append_singleton cs c ih =>
      rw [along_append, ih, along_cons, along_nil]
      by_cases hc : c = '\n'
      · subst hc
        rw [after_newline, Text.lastLine_concat_newline, List.count_append]
        simp only [List.count_singleton_self, List.length_nil, mk.injEq]
        omega
      · have hcount : [c].count '\n' = 0 := List.count_singleton.trans (if_neg (by simpa using hc))
        rw [after_of_ne hc, Text.lastLine_concat_of_ne hc, List.count_append, hcount,
          List.length_append]
        simp only [List.length_singleton, mk.injEq]
        omega

/-- Where a position of a text comes to stand behind another text: the newlines of that text lead further
down, and on the first line the columns count from the end of its last line. -/
def behind (before : List Char) (p : Position) : Position :=
  ⟨p.line + before.count '\n',
    if p.line = 1 then p.column + (Text.lastLine before).length else p.column⟩

/-- A text behind another one stands where that one leads to. -/
theorem within_along_start (before : List Char) : (start.along before).within = behind before := by
  funext p
  rw [along_start_eq, within, behind]
  split
  · simp only [mk.injEq]
    omega
  · simp only [mk.injEq, and_true]
    omega

end Position

/-! ## Gaps -/

namespace Token

/-- A text of separating characters and whole comments, each with the newline that ends it. -/
inductive IsClosedGap : List Char → Prop
  | nil : IsClosedGap []
  | blank {c : Char} {gap : List Char} (hc : isGap c = true) (hgap : IsClosedGap gap) :
      IsClosedGap (c :: gap)
  | comment {comment gap : List Char} (hcomment : '\n' ∉ comment) (hgap : IsClosedGap gap) :
      IsClosedGap (';' :: (comment ++ '\n' :: gap))

/-- A gap starts with a character that no lexeme goes on with. -/
theorem IsClosedGap.exists_separator {gap : List Char} (h : IsClosedGap gap) (hne : gap ≠ []) :
    ∃ d rest, gap = d :: rest ∧ isSeparator d = true := by
  cases h with
  | nil => exact absurd rfl hne
  | blank hc hgap => exact ⟨_, _, rfl, by simp [isSeparator, hc]⟩
  | comment hcomment hgap => exact ⟨_, _, rfl, by simp [isSeparator]⟩

/-- A gap in front of a text moves the text and brings no token. -/
theorem scanFrom_closedGap {gap : List Char} (h : IsClosedGap gap) (p : Position) (cs : List Char) :
    scanFrom p (gap ++ cs) = scanFrom (p.along gap) cs := by
  induction h generalizing p with
  | nil => rfl
  | blank hc hgap ih => rw [List.cons_append, scanFrom_gap _ _ hc, ih, Position.along_cons]
  | @comment inside gap hcomment hgap ih =>
      have hinside : ∀ c ∈ inside, inComment c = true := by
        intro c hc
        rw [inComment, bne_iff_ne]
        rintro rfl
        exact hcomment hc
      have hend : inComment '\n' = false := by decide
      have htake : (inside ++ '\n' :: (gap ++ cs)).takeWhile inComment = inside := by
        rw [takeWhile_append_cons_of_neg hend, List.takeWhile_eq_self_iff.mpr hinside]
      have hdrop : (inside ++ '\n' :: (gap ++ cs)).dropWhile inComment = '\n' :: (gap ++ cs) := by
        rw [dropWhile_append_cons_of_neg hend, List.dropWhile_eq_nil_iff.mpr hinside, List.nil_append]
      rw [List.cons_append, List.append_assoc, List.cons_append, scanFrom_comment, htake, hdrop,
        scanFrom_gap _ _ (by decide), ih, ← Position.along_cons, ← Position.along_append]
      rfl

/-- Two texts with a gap between them are scanned one after the other, the second behind the gap. -/
theorem scanFrom_append_closedGap {first gap : List Char} (hclosed : CommentsClosed first)
    (hgap : IsClosedGap gap) (hne : gap ≠ []) (second : List Char) :
    scanFrom .start (first ++ gap ++ second) =
      (scanFrom .start first).bind (TokenSequence.followedBy
        (Outcome.relocate (.behind (first ++ gap)) (TokenSequence.relocate (.behind (first ++ gap)))
          (scanFrom .start second))) := by
  obtain ⟨d, rest, hd, hseparator⟩ := hgap.exists_separator hne
  have hsplit : scanFrom .start (first ++ (gap ++ second)) = (scanFrom .start first).bind
      (TokenSequence.followedBy (scanFrom (Position.start.along first) (gap ++ second))) := by
    rw [hd, List.cons_append]
    exact scanFrom_append hseparator .start first (rest ++ second) hclosed
  rw [List.append_assoc, hsplit, scanFrom_closedGap hgap, ← Position.along_append,
    scanFrom_within (Position.start.along (first ++ gap)), Position.within_along_start]

/-- For all texts and every gap between them that is not empty, where the last line of the first text has no
comment: a fault of scanning the first text is the fault of the whole; otherwise a fault of scanning the second
text is, moved behind the first text and the gap; otherwise the tokens of the whole are those of the first text
without the end mark, and those of the second text moved. -/
theorem scan_distributes_over_gap {first gap : String} (hgap : IsClosedGap gap.toList)
    (hne : gap ≠ "") (hfirst : ';' ∉ Text.lastLine first.toList) (second : String) :
    let move := Position.behind (first ++ gap).toList
    (∀ fault, scan first = .error fault → scan (first ++ gap ++ second) = .error fault) ∧
    (∀ s fault, scan first = .ok s → scan second = .error fault →
      scan (first ++ gap ++ second) = .error (fault.relocate move)) ∧
    ∀ s s', scan first = .ok s → scan second = .ok s' →
      ∃ whole, scan (first ++ gap ++ second) = .ok whole ∧
        whole.toList = s.toList.dropLast ++ s'.toList.map (Token.relocate move) := by
  intro move
  have hscan : scan (first ++ gap ++ second) = (scan first).bind (TokenSequence.followedBy
      (Outcome.relocate move (TokenSequence.relocate move) (scan second))) := by
    have hchars : gap.toList ≠ [] := by simpa using hne
    have hlists := scanFrom_append_closedGap (commentsClosed_of_lastLine hfirst) hgap hchars second.toList
    rw [← String.toList_append, ← String.toList_append] at hlists
    exact hlists
  refine ⟨?_, ?_, ?_⟩
  · intro fault hfault
    rw [hscan, hfault]
    rfl
  · intro s fault hs hfault
    rw [hscan, hs, hfault]
    rfl
  · intro s s' hs hs'
    rw [hscan, hs, hs']
    refine ⟨_, rfl, ?_⟩
    simp [TokenSequence.toList, TokenSequence.endMark, TokenSequence.append, TokenSequence.relocate,
      Token.relocate]

/-- Behind `-` and the comment, the closing of `)` and `(` comes to stand in the second column of the second
line, and the opening keeps its column; so does a character that starts no token. -/
theorem scan_distributes_over_gap_comment :
    ∃ whole, scan ("-" ++ ";+\n\t" ++ ")\n(") = .ok whole ∧
      whole.toList = [⟨.minus, ⟨1, 1⟩, none⟩, ⟨.rparen, ⟨2, 2⟩, none⟩, ⟨.lparen, ⟨3, 1⟩, none⟩,
        ⟨.eof, ⟨3, 2⟩, none⟩] ∧
      scan ("-" ++ ";+\n\t" ++ "\n$") = .error ⟨.unexpectedChar "$", some ⟨3, 1⟩⟩ := by
  have hgap : IsClosedGap ";+\n\t".toList := by
    show IsClosedGap (';' :: (['+'] ++ '\n' :: ['\t']))
    exact .comment (by decide) (.blank rfl .nil)
  have hne : ";+\n\t" ≠ "" := by decide
  have hfirst : ';' ∉ Text.lastLine "-".toList := by decide
  have hminus : scan "-" = .ok ⟨[⟨.minus, ⟨1, 1⟩, none⟩], ⟨1, 2⟩⟩ := by
    show scanFrom .start ['-'] = _
    rw [scanFrom_symbol _ _ (by decide) (by decide) (by decide) (rfl : ofSymbol? '-' = some .minus),
      scanFrom]
    rfl
  have hparens : scan ")\n(" =
      .ok ⟨[⟨.rparen, ⟨1, 1⟩, none⟩, ⟨.lparen, ⟨2, 1⟩, none⟩], ⟨2, 2⟩⟩ := by
    show scanFrom .start [')', '\n', '('] = _
    rw [scanFrom_symbol _ _ (by decide) (by decide) (by decide) (rfl : ofSymbol? ')' = some .rparen),
      scanFrom_gap _ _ (by decide),
      scanFrom_symbol _ _ (by decide) (by decide) (by decide) (rfl : ofSymbol? '(' = some .lparen),
      scanFrom]
    rfl
  have hdollar : scan "\n$" = .error ⟨.unexpectedChar "$", some ⟨2, 1⟩⟩ := by
    show scanFrom .start ['\n', '$'] = _
    rw [scanFrom_gap _ _ (by decide),
      scanFrom_unexpectedChar _ _ (by decide) (by decide) (by decide) rfl]
    rfl
  obtain ⟨whole, hwhole, htokens⟩ :=
    (scan_distributes_over_gap hgap hne hfirst ")\n(").2.2 _ _ hminus hparens
  exact ⟨whole, hwhole, htokens,
    (scan_distributes_over_gap hgap hne hfirst "\n$").2.1 _ _ hminus hdollar⟩

end Token

end Calculator
