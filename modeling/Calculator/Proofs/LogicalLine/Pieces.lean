import Calculator.LogicalLine
import Calculator.Proofs.Text.Blank
import Calculator.Proofs.Token.Boundary

/-!
# Joining pieces

The pieces of a statement can be joined in two ways: with a space between those that are not empty, or
with a space after each of them. The two texts differ in their spaces only, so they read the same: they
have the same words, and the one has code if and only if the other has.
-/

set_option autoImplicit false

namespace Calculator

/-! ## The code of a line -/

/-- The empty text has no code. -/
@[simp] theorem codePart_nil : codePart [] = [] := rfl

/-- A text has no code exactly if all before its comment is blank. -/
theorem codePart_eq_nil_iff {cs : List Char} :
    codePart cs = [] ↔ Text.Blank (cs.takeWhile (· != ';')) := Text.trim_eq_nil_iff

/-- Blanks hold no semicolon. -/
theorem semicolon_notMem_of_blank {cs : List Char} (h : Text.Blank cs) : ';' ∉ cs := by
  intro hmem
  have hblank := h ';' hmem
  revert hblank
  decide

/-- Text without a semicolon is all before the comment of what follows. -/
theorem takeWhile_code_append {cs : List Char} (h : ';' ∉ cs) (rest : List Char) :
    (cs ++ rest).takeWhile (· != ';') = cs ++ rest.takeWhile (· != ';') := by
  apply List.takeWhile_append_of_pos
  intro c hc
  have hne : c ≠ ';' := fun heq => h (heq ▸ hc)
  simpa using hne

/-- Text without a semicolon has no comment. -/
theorem takeWhile_code_eq_self {cs : List Char} (h : ';' ∉ cs) : cs.takeWhile (· != ';') = cs := by
  simpa using takeWhile_code_append h []

/-- A comment behind a text does not add to what stands before its first semicolon. -/
theorem takeWhile_code_append_comment (cs comment : List Char) :
    (cs ++ ';' :: comment).takeWhile (· != ';') = cs.takeWhile (· != ';') :=
  takeWhile_append_cons_of_neg (p := (· != ';')) (by decide) cs comment

/-- Blanks around a line do not belong to its code. -/
theorem codePart_trim (cs : List Char) : codePart (Text.trim cs) = codePart cs := by
  obtain ⟨before, after, hbefore, hafter, hcs⟩ := Text.exists_blanks_around cs
  generalize Text.trim cs = inner at hcs
  subst hcs
  unfold codePart
  rw [List.append_assoc, takeWhile_code_append (semicolon_notMem_of_blank hbefore),
    Text.trim_blank_append hbefore]
  by_cases hcode : ';' ∈ inner
  · -- The code ends inside the trimmed line.
    obtain ⟨code, comment, rfl⟩ := List.append_of_mem hcode
    rw [List.append_assoc, List.cons_append, takeWhile_code_append_comment,
      takeWhile_code_append_comment]
  · have hblanks := takeWhile_code_eq_self (semicolon_notMem_of_blank hafter)
    rw [takeWhile_code_append hcode, takeWhile_code_eq_self hcode, hblanks,
      Text.trim_append_blank _ hafter]

/-- Blanks around a line do not matter for whether it goes on. -/
theorem continues_trim (cs : List Char) : continues (Text.trim cs) = continues cs := by
  rw [continues, codePart_trim, continues]

/-- Blanks around a line do not matter for the piece that it contributes. -/
theorem continuedPiece_trim (cs : List Char) : continuedPiece (Text.trim cs) = continuedPiece cs := by
  rw [continuedPiece, codePart_trim, continuedPiece]

/-- A piece of a statement has no blanks around it and no comment. -/
structure IsPiece (p : List Char) : Prop where
  trimmed : Text.trim p = p
  code : ';' ∉ p

/-- What a line that goes on contributes has no blanks around it and no comment. -/
theorem isPiece_continuedPiece (cs : List Char) : IsPiece (continuedPiece cs) := by
  constructor
  · exact Text.trim_trim _
  · intro hmem
    have hlast : ';' ∈ (codePart cs).dropLast := Text.mem_of_mem_trim hmem
    have hpart : ';' ∈ codePart cs := (List.dropLast_sublist _).subset hlast
    have hcode := List.mem_takeWhile_imp (Text.mem_of_mem_trim hpart)
    simp at hcode

/-! ## What a text reads as -/

/-- The words of a text, and whether it has no code. -/
def reading (cs : List Char) : Except Cause (List (TokenKind × Option Float)) × Bool :=
  (Token.words cs, (codePart cs).isEmpty)

/-- Two texts with a space between them have no code exactly if neither has. -/
theorem isEmpty_codePart_append_space {cs : List Char} (h : ';' ∉ cs) (rest : List Char) :
    (codePart (cs ++ ' ' :: rest)).isEmpty = ((codePart cs).isEmpty && (codePart rest).isEmpty) := by
  have hspace : Text.isBlank ' ' = true := by decide
  rw [Bool.eq_iff_iff]
  simp only [Bool.and_eq_true, List.isEmpty_iff, codePart_eq_nil_iff]
  rw [takeWhile_code_append h, takeWhile_code_eq_self h]
  simp [Text.Blank, hspace, or_imp, forall_and]

/-- The empty text has no words and no code. -/
theorem reading_nil : reading [] = (.ok [], true) := by
  simp [reading, Token.words_nil]

/-- Two texts with a space between them read as the one and then the other. -/
theorem reading_append_space {cs : List Char} (h : ';' ∉ cs) (rest : List Char) :
    reading (cs ++ ' ' :: rest) =
      (Token.wordsAppend (reading cs).1 (reading rest).1, (reading cs).2 && (reading rest).2) := by
  simp only [reading, Token.words_append_space h, isEmpty_codePart_append_space h]

/-- A space before a text does not change how it reads. -/
theorem reading_cons_space (cs : List Char) : reading (' ' :: cs) = reading cs := by
  have hnil : ';' ∉ ([] : List Char) := by simp
  have hsplit := reading_append_space hnil cs
  rw [List.nil_append] at hsplit
  rw [hsplit, reading_nil]
  simp [Token.wordsAppend_nil_left]

/-- A space behind a text without a comment does not change how it reads. -/
theorem reading_concat_space {cs : List Char} (h : ';' ∉ cs) : reading (cs ++ [' ']) = reading cs := by
  rw [reading_append_space h, reading_nil]
  simp [Token.wordsAppend_nil_right]

/-! ## The two ways of joining -/

/-- The pieces with a space after each of them. -/
def pendingText (pieces : List (List Char)) : List Char := pieces.flatMap (· ++ [' '])

/-- The pending text starts with its first piece and a space. -/
theorem pendingText_cons (p : List Char) (pieces : List (List Char)) :
    pendingText (p :: pieces) = p ++ ' ' :: pendingText pieces := by
  simp [pendingText]

/-- A further piece is put behind the pending text, with a space after it. -/
theorem pendingText_concat (pieces : List (List Char)) (p : List Char) :
    pendingText (pieces ++ [p]) = pendingText pieces ++ p ++ [' '] := by
  simp [pendingText]

/-- An empty piece in front adds nothing to the joined text. -/
theorem joinPieces_nil_cons (pieces : List (List Char)) :
    joinPieces ([] :: pieces) = joinPieces pieces := by
  simp [joinPieces]

/-- An empty piece at the end adds nothing to the joined text. -/
theorem joinPieces_concat_nil (pieces : List (List Char)) :
    joinPieces (pieces ++ [[]]) = joinPieces pieces := by
  simp [joinPieces]

/-- The empty pieces in front add nothing to the joined text. -/
theorem joinPieces_dropWhile_isEmpty (pieces : List (List Char)) :
    joinPieces (pieces.dropWhile List.isEmpty) = joinPieces pieces := by
  induction pieces with
  | nil => rfl
  | cons p pieces ih =>
      by_cases hp : p = []
      · subst hp
        rw [joinPieces_nil_cons, ← ih]
        rfl
      · rw [List.dropWhile_cons_of_neg (by simpa using hp)]

/-- One piece is joined to itself. -/
theorem joinPieces_singleton (p : List Char) : joinPieces [p] = p := by
  cases p <;> simp [joinPieces]

/-- A piece that is not empty stands alone, or is followed by a space and the others. -/
theorem joinPieces_cons {p : List Char} (hp : p ≠ []) (pieces : List (List Char)) :
    (joinPieces pieces = [] ∧ joinPieces (p :: pieces) = p) ∨
      joinPieces (p :: pieces) = p ++ ' ' :: joinPieces pieces := by
  unfold joinPieces
  cases h : pieces.filter (!·.isEmpty) with
  | nil => simp [hp, h]
  | cons q rest => simp [hp, h]

/-- Joined in either way, a list of pieces that ends with a line reads the same. -/
theorem reading_pendingText_append {pieces : List (List Char)} (h : ∀ p ∈ pieces, IsPiece p)
    (line : List Char) :
    reading (pendingText pieces ++ line) = reading (joinPieces (pieces ++ [line])) := by
  induction pieces with
  | nil => rw [List.nil_append, joinPieces_singleton, pendingText, List.flatMap_nil, List.nil_append]
  | cons p pieces ih =>
      have htail := ih fun q hq => h q (by simp [hq])
      have hcode : ';' ∉ p := (h p (by simp)).code
      rw [pendingText_cons, List.append_assoc, List.cons_append, List.cons_append]
      by_cases hp : p = []
      · subst hp
        rw [joinPieces_nil_cons, List.nil_append, reading_cons_space, htail]
      · rw [reading_append_space hcode, htail]
        rcases joinPieces_cons hp (pieces ++ [line]) with ⟨hnone, hone⟩ | hmore
        · rw [hnone, hone, ← reading_append_space hcode, reading_concat_space hcode]
        · rw [hmore, reading_append_space hcode]

/-- The blanks in front of the pending text are those of its empty pieces. -/
theorem trimLeft_pendingText {pieces : List (List Char)} (h : ∀ p ∈ pieces, IsPiece p) :
    Text.trimLeft (pendingText pieces) = pendingText (pieces.dropWhile List.isEmpty) := by
  have hspace : Text.isBlank ' ' = true := by decide
  induction pieces with
  | nil => rfl
  | cons p pieces ih =>
      have htail := ih fun q hq => h q (by simp [hq])
      rw [pendingText_cons]
      by_cases hp : p = []
      · subst hp
        have hdrop : Text.trimLeft (' ' :: pendingText pieces) = Text.trimLeft (pendingText pieces) :=
          List.dropWhile_cons_of_pos hspace
        simp [hdrop, htail]
      · rw [Text.trimLeft_append_of_trim_eq (h p (by simp)).trimmed hp]
        simp [hp, pendingText_cons]

/-- Without the spaces at its end, a list of pieces reads as before. -/
theorem reading_trimRight_pendingText {pieces : List (List Char)} (h : ∀ p ∈ pieces, IsPiece p) :
    reading (Text.trimRight (pendingText pieces)) = reading (joinPieces pieces) := by
  have hspace : Text.Blank [' '] := by
    intro c hc
    rw [List.mem_singleton] at hc
    subst hc
    decide
  induction pieces using List.reverseRecOn with
  | nil => rfl
  | append_singleton pieces p ih =>
      have hinit := ih fun q hq => h q (by simp [hq])
      rw [pendingText_concat, Text.trimRight_append_blank _ hspace]
      by_cases hp : p = []
      · rw [hp, List.append_nil, hinit, joinPieces_concat_nil]
      · rw [Text.trimRight_append_of_trim_eq (h p (by simp)).trimmed hp]
        exact reading_pendingText_append (fun q hq => h q (by simp [hq])) p

/-- The pending text reads as the pieces joined. -/
theorem reading_trim_pendingText {pieces : List (List Char)} (h : ∀ p ∈ pieces, IsPiece p) :
    reading (Text.trim (pendingText pieces)) = reading (joinPieces pieces) := by
  have hrest : ∀ p ∈ pieces.dropWhile List.isEmpty, IsPiece p := fun p hp =>
    h p ((List.dropWhile_sublist _).subset hp)
  rw [Text.trim, trimLeft_pendingText h, reading_trimRight_pendingText hrest,
    joinPieces_dropWhile_isEmpty]

/-- Pieces that are not all empty have code. -/
theorem codePart_joinPieces_eq_nil_iff {pieces : List (List Char)} (h : ∀ p ∈ pieces, IsPiece p) :
    codePart (joinPieces pieces) = [] ↔ joinPieces pieces = [] := by
  constructor
  · intro hnone
    induction pieces with
    | nil => rfl
    | cons p pieces ih =>
        have htail := ih fun q hq => h q (by simp [hq])
        by_cases hp : p = []
        · subst hp
          rw [joinPieces_nil_cons] at hnone ⊢
          exact htail hnone
        · obtain ⟨rest, hrest⟩ : ∃ rest, joinPieces (p :: pieces) = p ++ rest := by
            rcases joinPieces_cons hp pieces with ⟨-, hone⟩ | hmore
            · exact ⟨[], by rw [hone, List.append_nil]⟩
            · exact ⟨_, hmore⟩
          have hpiece := h p (by simp)
          rw [hrest, codePart_eq_nil_iff, takeWhile_code_append hpiece.code] at hnone
          have hblank : Text.Blank p := fun c hc => hnone c (List.mem_append_left _ hc)
          have hnil := Text.trim_eq_nil_iff.mpr hblank
          rw [hpiece.trimmed] at hnil
          exact absurd hnil hp
  · intro hnone
    rw [hnone, codePart_nil]

end Calculator
