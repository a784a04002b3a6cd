import Calculator.Proofs.Outcome
import Calculator.Proofs.Position.Offset
import Calculator.Proofs.Position.Relocation

/-!
# Scanning across a boundary

A blank between tokens, or the start of a comment, ends whatever lexeme stands before it. So a text
with such a character in it is scanned as two texts: first the part before it, then the rest from the
position reached. The part before must not leave a comment open.

What is scanned, apart from positions, is called the words of a text. The words of a text with a blank
in it are the words before the blank followed by those after it.
-/

set_option autoImplicit false

namespace Calculator

/-! ## Numerals end at a separator -/

namespace Token

/-- The characters that no lexeme goes on with. -/
def isSeparator (c : Char) : Bool := isGap c || c == ';'

/-- A separator is a blank, a newline or a semicolon. -/
theorem isSeparator_cases {c : Char} (h : isSeparator c = true) :
    c = ' ' ∨ c = '\t' ∨ c = '\r' ∨ c = '\n' ∨ c = ';' := by
  simpa [isSeparator, isGap, or_assoc] using h

/-- A separator is no digit. -/
theorem isDigit_of_isSeparator {c : Char} (h : isSeparator c = true) : Text.isDigit c = false := by
  rcases isSeparator_cases h with rfl | rfl | rfl | rfl | rfl <;> decide

end Token

/-- Taking characters stops before one that does not pass, whatever follows it. -/
theorem takeWhile_append_cons_of_neg {α : Type} {p : α → Bool} {d : α} (h : p d = false)
    (cs rest : List α) : (cs ++ d :: rest).takeWhile p = cs.takeWhile p := by
  induction cs with
  | nil => simp [h]
  | cons c cs ih => by_cases hc : p c <;> simp [hc, ih]

/-- Dropping characters stops before one that does not pass, and leaves what follows it. -/
theorem dropWhile_append_cons_of_neg {α : Type} {p : α → Bool} {d : α} (h : p d = false)
    (cs rest : List α) : (cs ++ d :: rest).dropWhile p = cs.dropWhile p ++ d :: rest := by
  induction cs with
  | nil => simp [h]
  | cons c cs ih => by_cases hc : p c <;> simp [hc, ih]

section Numerals

variable {d : Char} (hd : Token.isSeparator d = true)
include hd

/-- An exponent is taken off alike before a separator and what follows it. -/
theorem Exponent.take_append (cs rest : List Char) :
    Exponent.take (cs ++ d :: rest) = ((Exponent.take cs).1, (Exponent.take cs).2 ++ d :: rest) := by
  have hdigit := Token.isDigit_of_isSeparator hd
  have hmark : ¬(d = 'e' ∨ d = 'E') := by
    rcases Token.isSeparator_cases hd with rfl | rfl | rfl | rfl | rfl <;> decide
  have hsign : ¬(d = '+' ∨ d = '-') := by
    rcases Token.isSeparator_cases hd with rfl | rfl | rfl | rfl | rfl <;> decide
  match cs with
  | [] => simp [take, hmark]
  | [mark] =>
      by_cases hm : mark = 'e' ∨ mark = 'E'
      · simp [take, hm, hsign, hdigit]
      · simp [take, hm]
  | mark :: sign :: digits =>
      by_cases hm : mark = 'e' ∨ mark = 'E'
      · by_cases hs : sign = '+' ∨ sign = '-'
        · simp [take, hm, hs, takeWhile_append_cons_of_neg hdigit,
            dropWhile_append_cons_of_neg hdigit]
        · have htake := takeWhile_append_cons_of_neg hdigit (sign :: digits) rest
          have hdrop := dropWhile_append_cons_of_neg hdigit (sign :: digits) rest
          simp only [List.cons_append] at htake hdrop
          simp only [List.cons_append, take, if_pos hm, if_neg hs, htake, hdrop]
      · simp [take, hm]

/-- A fraction is taken off alike before a separator and what follows it. -/
theorem Numeral.takeFraction_append_separator (cs rest : List Char) :
    Numeral.takeFraction (cs ++ d :: rest) =
      ((Numeral.takeFraction cs).1, (Numeral.takeFraction cs).2 ++ d :: rest) := by
  have hdigit := Token.isDigit_of_isSeparator hd
  have hpoint : d ≠ '.' := by
    rcases Token.isSeparator_cases hd with rfl | rfl | rfl | rfl | rfl <;> decide
  match cs with
  | [] => simp [takeFraction, hpoint]
  | c :: cs =>
      by_cases hc : c = '.'
      · subst hc
        simp [takeFraction, takeWhile_append_cons_of_neg hdigit,
          dropWhile_append_cons_of_neg hdigit]
      · simp [takeFraction, hc]

/-- A numeral ends at the latest where a separator stands. -/
theorem Numeral.take_append (cs rest : List Char) :
    Numeral.take (cs ++ d :: rest) = ((Numeral.take cs).1, (Numeral.take cs).2 ++ d :: rest) := by
  have hdigit := Token.isDigit_of_isSeparator hd
  simp only [take, takeWhile_append_cons_of_neg hdigit, dropWhile_append_cons_of_neg hdigit,
    Numeral.takeFraction_append_separator hd, Exponent.take_append hd]

end Numerals

/-! ## The scan of two parts -/

/-- Every comment in a text ends before the text does. -/
def Token.CommentsClosed (cs : List Char) : Prop :=
  ∀ before after, cs = before ++ ';' :: after → '\n' ∈ after

/-- Comments that are closed in a text are closed in its end part. -/
theorem Token.CommentsClosed.of_append {before cs : List Char}
    (h : CommentsClosed (before ++ cs)) : CommentsClosed cs := by
  rintro first second rfl
  exact h (before ++ first) second (by simp)

/-- Comments that are closed in a text are closed behind its first character. -/
theorem Token.CommentsClosed.of_cons {c : Char} {cs : List Char} (h : CommentsClosed (c :: cs)) :
    CommentsClosed cs := by
  have h' : CommentsClosed ([c] ++ cs) := h
  exact h'.of_append

/-- Without a semicolon there is no comment to close. -/
theorem Token.commentsClosed_of_notMem {cs : List Char} (h : ';' ∉ cs) : CommentsClosed cs := by
  rintro before after rfl
  simp at h

/-- The tokens of one sequence followed by those of another. -/
def TokenSequence.append (first second : TokenSequence) : TokenSequence :=
  ⟨first.body ++ second.body, second.finish⟩

/-- What scanning the second part of a text adds to what scanning the first part has found. -/
def TokenSequence.followedBy (second : Except Fault TokenSequence) (first : TokenSequence) :
    Except Fault TokenSequence := second.map first.append

/-- A token in front of two parts stands in front of the first one. -/
theorem TokenSequence.bind_followedBy_cons (t : Token) (first second : Except Fault TokenSequence) :
    (first.map (cons t)).bind (followedBy second) = (first.bind (followedBy second)).map (cons t) := by
  cases first with
  | error fault => rfl
  | ok first => cases second <;> rfl

namespace Token

section Rules

variable {c : Char} (p : Position) (cs : List Char)

/-- A gap is skipped. -/
theorem scanFrom_gap (h : isGap c = true) : scanFrom p (c :: cs) = scanFrom (p.after c) cs := by
  rw [scanFrom, if_pos h]

/-- A numeral without a value is a fault. -/
theorem scanFrom_invalidNumber (hgap : ¬isGap c = true) (hdigit : Text.isDigit c = true)
    (hvalue : (Numeral.take (c :: cs)).1.value? = none) :
    scanFrom p (c :: cs) =
      .error ⟨.invalidNumber (String.ofList (Numeral.take (c :: cs)).1.text), some p⟩ := by
  rw [scanFrom, if_neg hgap, if_pos hdigit]
  simp only [hvalue]

/-- A numeral with a value is a number token. -/
theorem scanFrom_number (hgap : ¬isGap c = true) (hdigit : Text.isDigit c = true) {value : Float}
    (hvalue : (Numeral.take (c :: cs)).1.value? = some value) :
    scanFrom p (c :: cs) =
      (scanFrom (p.along (Numeral.take (c :: cs)).1.text) (Numeral.take (c :: cs)).2).map
        (TokenSequence.cons ⟨.number, p, some value⟩) := by
  rw [scanFrom, if_neg hgap, if_pos hdigit]
  simp only [hvalue]

/-- A comment is skipped up to the end of its line. -/
theorem scanFrom_comment :
    scanFrom p (';' :: cs) =
      scanFrom (p.along (';' :: cs.takeWhile inComment)) (cs.dropWhile inComment) := by
  have hgap : ¬isGap ';' = true := by decide
  have hdigit : ¬Text.isDigit ';' = true := by decide
  rw [scanFrom, if_neg hgap, if_neg hdigit, if_pos rfl]

/-- A symbol is a token of its kind. -/
theorem scanFrom_symbol (hgap : ¬isGap c = true) (hdigit : ¬Text.isDigit c = true)
    (hcomment : ¬c = ';') {kind : TokenKind} (hkind : ofSymbol? c = some kind) :
    scanFrom p (c :: cs) =
      (scanFrom (p.after c) cs).map (TokenSequence.cons ⟨kind, p, none⟩) := by
  rw [scanFrom, if_neg hgap, if_neg hdigit, if_neg hcomment, hkind]

/-- A character that starts no token is a fault. -/
theorem scanFrom_unexpectedChar (hgap : ¬isGap c = true) (hdigit : ¬Text.isDigit c = true)
    (hcomment : ¬c = ';') (hkind : ofSymbol? c = none) :
    scanFrom p (c :: cs) = .error ⟨.unexpectedChar (String.singleton c), some p⟩ := by
  rw [scanFrom, if_neg hgap, if_neg hdigit, if_neg hcomment, hkind]

end Rules

/-- A text in which a separator stands after closed comments is scanned as the part before the
separator and then the rest. -/
theorem scanFrom_append {d : Char} (hd : isSeparator d = true) (p : Position) (cs rest : List Char)
    (hclosed : CommentsClosed cs) :
    scanFrom p (cs ++ d :: rest) =
      (scanFrom p cs).bind (TokenSequence.followedBy (scanFrom (p.along cs) (d :: rest))) := by
  fun_induction scanFrom p cs with
  | case1 p =>
      simp only [List.nil_append, Position.along_nil, Except.bind, TokenSequence.followedBy]
      cases scanFrom p (d :: rest) <;> rfl
  | case2 p c cs hgap ih =>
      rw [List.cons_append, scanFrom_gap p _ hgap, ih hclosed.of_cons, Position.along_cons]
  | case3 p c cs hgap hdigit numeral hvalue =>
      have htake := Numeral.take_append hd (c :: cs) rest
      rw [List.cons_append] at htake ⊢
      rw [scanFrom_invalidNumber p _ hgap hdigit (by rw [htake]; exact hvalue), htake]
      rfl
  | case4 p c cs hgap hdigit numeral value hvalue ih =>
      have htake := Numeral.take_append hd (c :: cs) rest
      have hsplit := Numeral.text_append_rest (c :: cs)
      have hrest : CommentsClosed (Numeral.take (c :: cs)).2 := by
        rw [← hsplit] at hclosed
        exact hclosed.of_append
      have hpos : (p.along numeral.text).along (Numeral.take (c :: cs)).2 = p.along (c :: cs) := by
        rw [← Position.along_append, hsplit]
      rw [List.cons_append] at htake ⊢
      rw [scanFrom_number p _ hgap hdigit (by rw [htake]; exact hvalue), htake, ih hrest, hpos,
        TokenSequence.bind_followedBy_cons]
  | case5 p cs hgap hdigit ih =>
      -- The comment ends at a newline before the separator.
      obtain ⟨inside, after, rfl⟩ := List.append_of_mem (hclosed [] cs rfl)
      have hend : inComment '\n' = false := by decide
      rw [takeWhile_append_cons_of_neg hend, dropWhile_append_cons_of_neg hend] at ih ⊢
      have hsplit : ';' :: (inside ++ '\n' :: after) =
          (';' :: inside.takeWhile inComment) ++ (inside.dropWhile inComment ++ '\n' :: after) := by
        rw [List.cons_append, ← List.append_assoc, List.takeWhile_append_dropWhile]
      have hrest : CommentsClosed (inside.dropWhile inComment ++ '\n' :: after) := by
        rw [hsplit] at hclosed
        exact hclosed.of_append
      rw [hsplit, Position.along_append, ← ih hrest, ← hsplit]
      simp only [List.cons_append, List.append_assoc]
      rw [scanFrom_comment, takeWhile_append_cons_of_neg hend, dropWhile_append_cons_of_neg hend]
  | case6 p c cs hgap hdigit hcomment kind hkind ih =>
      rw [List.cons_append, scanFrom_symbol p _ hgap hdigit hcomment hkind, ih hclosed.of_cons,
        TokenSequence.bind_followedBy_cons, Position.along_cons]
  | case7 p c cs hgap hdigit hcomment hkind =>
      rw [List.cons_append, scanFrom_unexpectedChar p _ hgap hdigit hcomment hkind]
      rfl

end Token

/-! ## Where a text starts -/

namespace Position

/-- Where a position of a text comes to stand if the text starts at the given position instead of at
the start: only on its first line do the columns move. -/
def within (p q : Position) : Position :=
  if q.line = 1 then ⟨p.line, p.column + q.column - 1⟩ else ⟨p.line + q.line - 1, q.column⟩

/-- The start of an inner text is where that text stands. -/
theorem within_start (p : Position) : p.within start = p := by
  simp [within, start]

/-- A character leads from one position to another in the outer text as in the inner one. -/
theorem within_after (p : Position) {q : Position} (hq : 1 ≤ q.line) (c : Char) :
    p.within (q.after c) = (p.within q).after c := by
  by_cases hc : c = '\n'
  · subst hc
    have hline : ¬q.line + 1 = 1 := by omega
    rw [after_newline, after_newline, within, if_neg hline, within]
    by_cases h : q.line = 1
    · simp only [if_pos h, mk.injEq, and_true]
      omega
    · simp only [if_neg h, mk.injEq, and_true]
      omega
  · rw [after_of_ne hc, after_of_ne hc, within, within]
    by_cases h : q.line = 1
    · simp only [if_pos h, mk.injEq, true_and]
      omega
    · simp only [if_neg h]

/-- Characters lead from one position to another in the outer text as in the inner one. -/
theorem within_along (p : Position) {q : Position} (hq : 1 ≤ q.line) (cs : List Char) :
    p.within (q.along cs) = (p.within q).along cs := by
  induction cs generalizing q with
  | nil => rfl
  | cons c cs ih =>
      have hline := line_along q [c]
      rw [along_cons, along_nil] at hline
      rw [along_cons, ih (by omega), within_after p hq, along_cons]

end Position

namespace Token

/-- Moving positions commutes with putting a token in front. -/
theorem map_cons_relocate (f : Position → Position) (t : Token) (x : Except Fault TokenSequence) :
    (Outcome.relocate f (TokenSequence.relocate f) x).map (TokenSequence.cons (t.relocate f)) =
      Outcome.relocate f (TokenSequence.relocate f) (x.map (TokenSequence.cons t)) := by
  cases x <;> rfl

/-- Scanning from a position that a function moves rigidly moves everything it finds. -/
theorem scanFrom_relocate (f : Position → Position) (p : Position) (cs : List Char)
    (hf : ∀ passed, f (p.along passed) = (f p).along passed) :
    scanFrom (f p) cs = Outcome.relocate f (TokenSequence.relocate f) (scanFrom p cs) := by
  have hnext : ∀ {q : Position} (passed : List Char),
      (∀ more, f (q.along more) = (f q).along more) →
      ∀ more, f ((q.along passed).along more) = (f (q.along passed)).along more := by
    intro q passed hq more
    rw [← Position.along_append, hq, hq, Position.along_append]
  fun_induction scanFrom p cs with
  | case1 p => simp [scanFrom, TokenSequence.relocate]
  | case2 p c cs hgap ih =>
      rw [scanFrom_gap _ _ hgap, ← ih (hnext [c] hf)]
      exact congrArg (scanFrom · cs) (hf [c]).symm
  | case3 p c cs hgap hdigit numeral hvalue =>
      rw [scanFrom_invalidNumber _ _ hgap hdigit hvalue]
      rfl
  | case4 p c cs hgap hdigit numeral value hvalue ih =>
      rw [scanFrom_number _ _ hgap hdigit hvalue, ← hf, ih (hnext _ hf)]
      exact map_cons_relocate f ⟨.number, p, some value⟩ _
  | case5 p cs hgap hdigit ih =>
      rw [scanFrom_comment, ← hf, ih (hnext _ hf)]
  | case6 p c cs hgap hdigit hcomment kind hkind ih =>
      have hafter : (f p).after c = f (p.after c) := (hf [c]).symm
      rw [scanFrom_symbol _ _ hgap hdigit hcomment hkind, hafter, ih (hnext [c] hf)]
      exact map_cons_relocate f ⟨kind, p, none⟩ _
  | case7 p c cs hgap hdigit hcomment hkind =>
      rw [scanFrom_unexpectedChar _ _ hgap hdigit hcomment hkind]
      rfl

/-- Scanning a text from a position is scanning it from the start, with positions moved. -/
theorem scanFrom_within (p : Position) (cs : List Char) :
    scanFrom p cs = Outcome.relocate p.within (TokenSequence.relocate p.within)
      (scanFrom .start cs) := by
  have h := scanFrom_relocate p.within .start cs
    (Position.within_along p (by simp [Position.start]))
  rwa [Position.within_start] at h

end Token

/-! ## Words -/

/-- The words of a text, or the cause of the fault that scanning meets. -/
def Token.words (cs : List Char) : Except Cause (List (TokenKind × Option Float)) :=
  ((scanFrom .start cs).map TokenSequence.words).mapError Fault.cause

/-- The words of two texts in turn; a fault in the first comes before one in the second. -/
def Token.wordsAppend (first second : Except Cause (List (TokenKind × Option Float))) :
    Except Cause (List (TokenKind × Option Float)) :=
  first.bind fun ws => second.map (ws ++ ·)

namespace Token

/-- The empty text has no words. -/
theorem words_nil : words [] = .ok [] := by
  simp [words, scanFrom, Except.map, Except.mapError, TokenSequence.words]

/-- No words before others add nothing. -/
theorem wordsAppend_nil_left (ws : Except Cause (List (TokenKind × Option Float))) :
    wordsAppend (.ok []) ws = ws := by
  cases ws <;> rfl

/-- No words behind others add nothing. -/
theorem wordsAppend_nil_right (ws : Except Cause (List (TokenKind × Option Float))) :
    wordsAppend ws (.ok []) = ws := by
  cases ws <;> simp [wordsAppend, Except.bind, Except.map]

/-- Where a text starts has no influence on its words. -/
theorem words_eq (p : Position) (cs : List Char) :
    ((scanFrom p cs).map TokenSequence.words).mapError Fault.cause = words cs := by
  rw [words, scanFrom_within p cs]
  cases scanFrom .start cs with
  | error fault => rfl
  | ok s =>
      simp only [Outcome.relocate_ok, Except.map, Except.mapError, TokenSequence.words,
        TokenSequence.relocate, List.map_map]
      rfl

/-- Two texts with a space between them have the words of both. -/
theorem words_append_space {cs : List Char} (h : ';' ∉ cs) (rest : List Char) :
    words (cs ++ ' ' :: rest) = wordsAppend (words cs) (words rest) := by
  have hspace : isSeparator ' ' = true := by decide
  have hgap : isGap ' ' = true := by decide
  rw [← words_eq ((Position.start.along cs).after ' ') rest]
  rw [words, scanFrom_append hspace _ _ _ (commentsClosed_of_notMem h), scanFrom_gap _ _ hgap, words]
  cases scanFrom .start cs with
  | error fault => rfl
  | ok first =>
      cases scanFrom ((Position.start.along cs).after ' ') rest with
      | error fault => rfl
      | ok second =>
          simp [Except.bind, Except.map, Except.mapError, TokenSequence.followedBy, wordsAppend,
            TokenSequence.words, TokenSequence.append]

end Token

/-- Texts with the same words have the same value, or faults with the same cause, whatever room there is for
calls. -/
theorem textValue_eq_of_words_eq (room : Nat) {text text' : String}
    (h : Token.words text.toList = Token.words text'.toList) :
    (textValue room text).mapError Fault.cause = (textValue room text').mapError Fault.cause := by
  have hvalue : ∀ text : String,
      textValue room text =
        (Token.scan text).bind (TokenSequence.value (room - 1) Parser.defaultLimit) :=
    fun _ => rfl
  rw [hvalue, hvalue]
  simp only [Token.words] at h
  simp only [Token.scan]
  cases hs : Token.scanFrom .start text.toList with
  | error fault =>
      cases hs' : Token.scanFrom .start text'.toList with
      | error fault' => simpa [hs, hs', Except.map, Except.mapError, Except.bind] using h
      | ok s' => simp [hs, hs', Except.map, Except.mapError] at h
  | ok s =>
      cases hs' : Token.scanFrom .start text'.toList with
      | error fault' => simp [hs, hs', Except.map, Except.mapError] at h
      | ok s' =>
          have hwords : s.words = s'.words := by
            simpa [hs, hs', Except.map, Except.mapError] using h
          exact TokenSequence.result_eq_of_words_eq (room - 1) Parser.defaultLimit hwords

end Calculator
