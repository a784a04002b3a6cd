import Calculator.Proofs.Number.Binary64
import Calculator.Proofs.Outcome
import Calculator.Proofs.Position.Order
import Calculator.Proofs.Text.Line
import Calculator.Proofs.Token.Boundary
import Calculator.Proofs.Token.LongestNumeral

/-!
# Texts as lexemes between gaps

A text that can be scanned is a sequence of lexemes with gaps between them. A gap holds separating
characters and comments, each comment up to a newline or the end. A lexeme is the character of a
symbol, or the longest numeral at its place. No character is left out and none is read twice: the gaps
and the lexemes in their order are the text. Each token stands at the position of the offset of its
lexeme, and the end mark at that of the length of the text.

The scan is first put in the form of a relation, `Segmented`, with one rule for a token and the gap
before it and one for the last gap. A separating character or a comment lengthens the gap that comes
next.
-/

set_option autoImplicit false

namespace Calculator

namespace Token

/-! ## Gaps, lexemes and segments -/

/-- `IsGapText gap rest`: in front of `rest`, the text `gap` separates tokens. -/
inductive IsGapText : List Char → List Char → Prop
  | nil (rest : List Char) : IsGapText [] rest
  | blank {c : Char} {gap rest : List Char} (hc : isGap c = true) (hgap : IsGapText gap rest) :
      IsGapText (c :: gap) rest
  | comment {comment gap rest : List Char} (hcomment : '\n' ∉ comment)
      (hend : gap ++ rest = [] ∨ (gap ++ rest).head? = some '\n') (hgap : IsGapText gap rest) :
      IsGapText (';' :: comment ++ gap) rest

/-- `t.Spells lexeme rest`: in front of `rest`, the text `lexeme` is written for the token `t`. -/
inductive Spells : Token → List Char → List Char → Prop
  | symbol {c : Char} {kind : TokenKind} (hkind : ofSymbol? c = some kind) (pos : Position)
      (rest : List Char) : Spells ⟨kind, pos, none⟩ [c] rest
  | number {n : Numeral} {value : Float} {magnitude : Fraction} {rest : List Char}
      (hn : n.WellFormed)
      (hlongest : ∀ m : Numeral, m.WellFormed → m.text <+: n.text ++ rest →
        m.text.length ≤ n.text.length)
      (hvalue : n.value? = some value) (hfinite : Binary64.datum value = .finite false magnitude)
      (pos : Position) : Spells ⟨.number, pos, some value⟩ n.text rest

/-- A lexeme and the gap before it. -/
structure Segment where
  gap : List Char
  lexeme : List Char

/-- The text of some segments. -/
def Segment.join (segments : List Segment) : List Char :=
  segments.flatMap fun g => g.gap ++ g.lexeme

/-- No segments make up the empty text. -/
@[simp] theorem Segment.join_nil : join [] = [] := rfl

/-- The first segment comes before the others, its gap before its lexeme. -/
@[simp] theorem Segment.join_cons (g : Segment) (segments : List Segment) :
    join (g :: segments) = g.gap ++ g.lexeme ++ join segments := List.flatMap_cons

/-- A lexeme is not empty. -/
theorem Spells.ne_nil {t : Token} {lexeme rest : List Char} (h : t.Spells lexeme rest) :
    lexeme ≠ [] := by
  cases h with
  | symbol => simp
  | number hn =>
      intro hempty
      rw [Numeral.text, List.append_assoc] at hempty
      exact hn.nonempty (List.append_eq_nil_iff.mp hempty).1

/-- A reading of a text as lexemes between gaps, with one token for each lexeme and the end mark. A
token has the position of the offset of its lexeme, the end mark that of the length of the text. -/
structure IsSegmentation (cs : List Char) (segments : List Segment) (last : List Char)
    (tokens : List Token) : Prop where
  text : cs = Segment.join segments ++ last
  length : tokens.length = segments.length + 1
  gap : ∀ before g after, segments = before ++ g :: after →
    IsGapText g.gap (g.lexeme ++ (Segment.join after ++ last))
  token : ∀ before g after, segments = before ++ g :: after →
    ∃ t, tokens[before.length]? = some t ∧ t.Spells g.lexeme (Segment.join after ++ last) ∧
      t.pos = .ofOffset cs (Segment.join before ++ g.gap).length
  lastGap : IsGapText last []
  endMark : tokens.getLast? = some ⟨.eof, .ofOffset cs cs.length, none⟩

/-! ## The scan as a relation -/

/-- `Segmented p segments last s`: where the text of the segments and the last gap starts at `p`, its
tokens are `s`. -/
inductive Segmented : Position → List Segment → List Char → TokenSequence → Prop
  | finish {last : List Char} (p : Position) (hlast : IsGapText last []) :
      Segmented p [] last ⟨[], p.along last⟩
  | token {p : Position} {g : Segment} {segments : List Segment} {last : List Char} {t : Token}
      {s : TokenSequence} (hgap : IsGapText g.gap (g.lexeme ++ (Segment.join segments ++ last)))
      (hlexeme : t.Spells g.lexeme (Segment.join segments ++ last)) (hpos : t.pos = p.along g.gap)
      (hrest : Segmented (p.along (g.gap ++ g.lexeme)) segments last s) :
      Segmented p (g :: segments) last (s.cons t)

/-- The text has a segmentation with these tokens. -/
def HasSegments (p : Position) (cs : List Char) (s : TokenSequence) : Prop :=
  ∃ segments last, cs = Segment.join segments ++ last ∧ Segmented p segments last s

variable {p : Position} {s : TokenSequence}

/-- What lengthens every gap at the start of a text lengthens the first gap of its segmentation. -/
theorem HasSegments.lengthen {cs more : List Char}
    (hmore : ∀ gap rest, cs = gap ++ rest → IsGapText gap rest → IsGapText (more ++ gap) rest)
    (h : HasSegments (p.along more) cs s) : HasSegments p (more ++ cs) s := by
  obtain ⟨segments, last, rfl, hsegmented⟩ := h
  cases hsegmented with
  | finish _ hlast =>
      refine ⟨[], more ++ last, by simp, ?_⟩
      rw [← Position.along_append]
      exact .finish p (hmore last [] (by simp) hlast)
  | @token _ g segments _ t s hgap hlexeme hpos hrest =>
      refine ⟨⟨more ++ g.gap, g.lexeme⟩ :: segments, last, by simp, .token ?_ hlexeme ?_ ?_⟩
      · exact hmore _ _ (by simp) hgap
      · rw [hpos, ← Position.along_append]
      · rw [← Position.along_append, ← List.append_assoc] at hrest
        exact hrest

/-- A blank in front belongs to the first gap. -/
theorem HasSegments.blank {c : Char} {cs : List Char} (hc : isGap c = true)
    (h : HasSegments (p.after c) cs s) : HasSegments p (c :: cs) s := by
  have h' : HasSegments (p.along [c]) cs s := h
  exact h'.lengthen fun _ _ _ hgap => .blank hc hgap

/-- A comment in front belongs to the first gap. -/
theorem HasSegments.comment {rest : List Char}
    (h : HasSegments (p.along (';' :: rest.takeWhile inComment)) (rest.dropWhile inComment) s) :
    HasSegments p (';' :: rest) s := by
  have hcomment : '\n' ∉ rest.takeWhile inComment := Text.newline_notMem_takeWhile rest
  have hend : rest.dropWhile inComment = [] ∨ (rest.dropWhile inComment).head? = some '\n' :=
    Text.dropWhile_ne_newline_cases rest
  have hlonger := h.lengthen fun gap after hsplit hgap => by
    rw [hsplit] at hend
    exact IsGapText.comment hcomment hend hgap
  rwa [List.cons_append, List.takeWhile_append_dropWhile] at hlonger

/-- A lexeme in front is a segment of its own. -/
theorem HasSegments.cons {t : Token} {lexeme cs : List Char} (hlexeme : t.Spells lexeme cs)
    (hpos : t.pos = p) (h : HasSegments (p.along lexeme) cs s) :
    HasSegments p (lexeme ++ cs) (s.cons t) := by
  obtain ⟨segments, last, rfl, hsegmented⟩ := h
  refine ⟨⟨[], lexeme⟩ :: segments, last, by simp, .token (.nil _) hlexeme hpos hsegmented⟩

/-- The numeral taken spells a number with its value. -/
theorem spells_take {c : Char} {cs : List Char} (hdigit : Text.isDigit c = true) {value : Float}
    (hvalue : (Numeral.take (c :: cs)).1.value? = some value) (pos : Position) :
    Spells ⟨.number, pos, some value⟩ (Numeral.take (c :: cs)).1.text (Numeral.take (c :: cs)).2 := by
  have hfinite : ∃ magnitude, Binary64.datum value = .finite false magnitude := by
    unfold Numeral.value? at hvalue
    split at hvalue
    · exact ⟨_, Decimal.datum_of_toFloat? hvalue⟩
    · cases hvalue
  obtain ⟨magnitude, hfinite⟩ := hfinite
  refine .number (Numeral.wellFormed_take hdigit cs) ?_ hvalue hfinite pos
  intro m hm hstart
  rw [Numeral.text_append_rest] at hstart
  exact Numeral.length_text_le_length_take hm hstart

/-- A text that is scanned has segments. -/
theorem hasSegments_of_scanFrom {cs : List Char} (h : scanFrom p cs = .ok s) :
    HasSegments p cs s := by
  fun_induction scanFrom p cs generalizing s with
  | case1 p =>
      cases h
      exact ⟨[], [], rfl, .finish p (.nil [])⟩
  | case2 p c rest hgap ih => exact (ih h).blank hgap
  | case3 => cases h
  | case4 p c rest hgap hdigit numeral value hvalue =>
      rename_i ih
      obtain ⟨others, hothers, rfl⟩ := Outcome.map_eq_ok_iff.mp h
      rw [← Numeral.text_append_rest (c :: rest)]
      exact (ih hothers).cons (spells_take hdigit hvalue p) rfl
  | case5 p rest hgap hdigit ih => exact (ih h).comment
  | case6 p c rest hgap hdigit hcomment kind hkind ih =>
      obtain ⟨others, hothers, rfl⟩ := Outcome.map_eq_ok_iff.mp h
      exact (ih hothers).cons (.symbol hkind p rest) rfl
  | case7 => cases h

/-! ## Where the tokens stand -/

namespace Segmented

variable {segments : List Segment} {last : List Char}

/-- There is one token for each segment, and the end mark. -/
theorem length_toList (h : Segmented p segments last s) :
    s.toList.length = segments.length + 1 := by
  induction h with
  | finish => rfl
  | token hgap hlexeme hpos hrest ih => exact congrArg Nat.succ ih

/-- The end mark stands behind all segments and the last gap. -/
theorem finish_eq (h : Segmented p segments last s) :
    s.finish = p.along (Segment.join segments ++ last) := by
  induction h with
  | finish => rfl
  | token hgap hlexeme hpos hrest ih =>
      show TokenSequence.finish _ = _
      rw [Segment.join_cons, List.append_assoc, Position.along_append]
      exact ih

/-- What stands behind the last segment is a gap. -/
theorem isGapText_last (h : Segmented p segments last s) : IsGapText last [] := by
  induction h with
  | finish p hlast => exact hlast
  | token hgap hlexeme hpos hrest ih => exact ih

variable {before after : List Segment} {g : Segment}

/-- What stands before a lexeme is a gap. -/
theorem isGapText (h : Segmented p segments last s) (hsplit : segments = before ++ g :: after) :
    IsGapText g.gap (g.lexeme ++ (Segment.join after ++ last)) := by
  induction h generalizing before with
  | finish => simp at hsplit
  | token hgap hlexeme hpos hrest ih =>
      cases before with
      | nil =>
          cases hsplit
          exact hgap
      | cons _ before =>
          cases hsplit
          exact ih rfl

/-- Each token is spelled by the lexeme of its segment and stands at its start. -/
theorem spells (h : Segmented p segments last s) (hsplit : segments = before ++ g :: after) :
    ∃ t, s.toList[before.length]? = some t ∧ t.Spells g.lexeme (Segment.join after ++ last) ∧
      t.pos = p.along (Segment.join before ++ g.gap) := by
  induction h generalizing before with
  | finish => simp at hsplit
  | @token p first segments last t s hgap hlexeme hpos hrest ih =>
      cases before with
      | nil =>
          cases hsplit
          exact ⟨t, rfl, hlexeme, hpos⟩
      | cons _ before =>
          cases hsplit
          obtain ⟨t', ht', hlexeme', hpos'⟩ := ih rfl
          refine ⟨t', ht', hlexeme', ?_⟩
          rw [hpos', Segment.join_cons, List.append_assoc _ _ g.gap, ← Position.along_append]

/-- Every token but the end mark is spelled by the text at its position. -/
theorem exists_spells (h : Segmented p segments last s) :
    ∀ t ∈ s.body, ∃ passed lexeme rest, Segment.join segments ++ last = passed ++ (lexeme ++ rest) ∧
      t.pos = p.along passed ∧ t.Spells lexeme rest := by
  induction h with
  | finish => simp
  | @token p g segments last t s hgap hlexeme hpos hrest ih =>
      intro t' ht'
      rcases List.mem_cons.mp ht' with rfl | hlater
      · refine ⟨g.gap, g.lexeme, Segment.join segments ++ last, ?_, hpos, hlexeme⟩
        simp only [Segment.join_cons, List.append_assoc]
      · obtain ⟨passed, lexeme, rest, htext, hpos', hspells⟩ := ih t' hlater
        refine ⟨g.gap ++ g.lexeme ++ passed, lexeme, rest, ?_, ?_, hspells⟩
        · rw [Segment.join_cons, List.append_assoc, htext]
          simp only [List.append_assoc]
        · rw [hpos', ← Position.along_append]

/-- Every token stands where some characters lead to. -/
theorem exists_along (h : Segmented p segments last s) :
    ∀ t ∈ s.toList, ∃ passed, t.pos = p.along passed := by
  induction h with
  | @finish last p hlast =>
      intro t ht
      rw [List.mem_singleton.mp ht]
      exact ⟨last, rfl⟩
  | @token p g segments last t s hgap hlexeme hpos hrest ih =>
      intro t' ht'
      rcases List.mem_cons.mp ht' with rfl | hlater
      · exact ⟨g.gap, hpos⟩
      · obtain ⟨passed, hpassed⟩ := ih t' hlater
        exact ⟨g.gap ++ g.lexeme ++ passed, by rw [hpassed, Position.along_append _ _ passed]⟩

/-- The tokens and the end mark stand at ever later positions. -/
theorem pairwise_before (h : Segmented p segments last s) :
    (s.toList.map Token.pos).Pairwise Position.Before := by
  induction h with
  | finish => exact List.pairwise_singleton ..
  | @token p g segments last t s hgap hlexeme hpos hrest ih =>
      rw [TokenSequence.toList_cons, List.map_cons, List.pairwise_cons]
      refine ⟨?_, ih⟩
      intro q hq
      obtain ⟨t', ht', rfl⟩ := List.mem_map.mp hq
      obtain ⟨passed, hpassed⟩ := hrest.exists_along t' ht'
      -- The lexeme of the first token lies between the two positions.
      rw [hpassed, hpos, Position.along_append p, ← Position.along_append]
      apply Position.before_along
      simp [hlexeme.ne_nil]

/-- Segments that start at the first position make up a segmentation of the text. -/
theorem isSegmentation (h : Segmented .start segments last s) :
    IsSegmentation (Segment.join segments ++ last) segments last s.toList where
  text := rfl
  length := h.length_toList
  gap _ _ _ hsplit := h.isGapText hsplit
  token before g after hsplit := by
    obtain ⟨t, ht, hlexeme, hpos⟩ := h.spells hsplit
    refine ⟨t, ht, hlexeme, ?_⟩
    have htext : Segment.join segments ++ last =
        (Segment.join before ++ g.gap) ++ (g.lexeme ++ (Segment.join after ++ last)) := by
      rw [hsplit]
      simp [Segment.join]
    rw [hpos, htext, ← Position.along_start_eq_ofOffset]
  lastGap := h.isGapText_last
  endMark := by
    have hwhole := Position.along_start_eq_ofOffset (Segment.join segments ++ last) []
    rw [List.append_nil] at hwhole
    rw [TokenSequence.toList, List.getLast?_concat, TokenSequence.endMark, h.finish_eq, hwhole]

end Segmented

/-- A text that is scanned is made of gaps and lexemes in turn, its tokens are those of the lexemes, and
they stand at ever later positions. -/
theorem scan_segments {source : String} (h : scan source = .ok s) :
    (∃ segments last, IsSegmentation source.toList segments last s.toList) ∧
      (s.toList.map Token.pos).Pairwise Position.Before := by
  obtain ⟨segments, last, hsource, hsegmented⟩ := hasSegments_of_scanFrom h
  refine ⟨⟨segments, last, ?_⟩, hsegmented.pairwise_before⟩
  rw [hsource]
  exact hsegmented.isSegmentation

/-- Between the two numerals of this text stand a comment, a newline and an opening; the second has a digit
that is not an ASCII one. -/
theorem scan_segments_commented_group :
    ∃ s, scan "12;x\n(٣.5e+0)" = .ok s ∧
      (∃ segments last, IsSegmentation "12;x\n(٣.5e+0)".toList segments last s.toList) ∧
        (s.toList.map Token.pos).Pairwise Position.Before := by
  have htwelve : (Numeral.take "12;x\n(٣.5e+0)".toList).1.value? =
      some (.ofBits 0x4028000000000000) := by
    decide +kernel
  have hthree : (Numeral.take ['٣', '.', '5', 'e', '+', '0', ')']).1.value? =
      some (.ofBits 0x400C000000000000) := by
    decide +kernel
  have hscan : scan "12;x\n(٣.5e+0)" = .ok ⟨[⟨.number, ⟨1, 1⟩, some (.ofBits 0x4028000000000000)⟩,
      ⟨.lparen, ⟨2, 1⟩, none⟩, ⟨.number, ⟨2, 2⟩, some (.ofBits 0x400C000000000000)⟩,
      ⟨.rparen, ⟨2, 8⟩, none⟩], ⟨2, 9⟩⟩ := by
    refine (scanFrom_number .start _ (by decide) (by decide) htwelve).trans ?_
    show (scanFrom ⟨1, 3⟩ [';', 'x', '\n', '(', '٣', '.', '5', 'e', '+', '0', ')']).map _ = _
    rw [scanFrom_comment]
    show (scanFrom ⟨1, 5⟩ ['\n', '(', '٣', '.', '5', 'e', '+', '0', ')']).map _ = _
    rw [scanFrom_gap _ _ (by decide),
      scanFrom_symbol _ _ (by decide) (by decide) (by decide) (rfl : ofSymbol? '(' = some .lparen),
      scanFrom_number _ _ (by decide) (by decide) hthree]
    show (((scanFrom ⟨2, 8⟩ [')']).map _).map _).map _ = _
    rw [scanFrom_symbol _ _ (by decide) (by decide) (by decide) (rfl : ofSymbol? ')' = some .rparen),
      scanFrom]
    rfl
  exact ⟨_, hscan, scan_segments hscan⟩

end Token

end Calculator
