import Calculator.Proofs.Outcome
import Calculator.Proofs.Position.Offset
import Calculator.Token.Scan

/-!
# What stands at a position

Scanning gives every token the position at which its lexeme starts, and the end mark the position of
the end. A fault of scanning carries the position of the character or the numeral that it is about.
Each is an induction along the scan, in which the text before the current character is summed up by the
position reached.
-/

set_option autoImplicit false

namespace Calculator

/-- The kind of the token whose lexeme a text starts with; at its end stands the end mark. -/
def Token.kindAt? : List Char → Option TokenKind
  | [] => some .eof
  | c :: _ => if Text.isDigit c then some .number else Token.ofSymbol? c

/-- What the text looks like from the culprit of a fault on: it starts with the unexpected character,
with the invalid numeral, with a lexeme of the unexpected token, with the group that is too deep or with
the division by zero; or it has ended. A cause that no text can bring about has no culprit. -/
def Cause.Blames : Cause → List Char → Prop
  | .unexpectedChar char, rest =>
    Token.kindAt? rest = none ∧ ∃ c, rest.head? = some c ∧ char = String.singleton c
  | .invalidNumber text, rest =>
    Token.kindAt? rest = some .number ∧ (Numeral.take rest).1.value? = none ∧
      text = String.ofList (Numeral.take rest).1.text
  | .unexpectedToken found _, rest =>
    rest ≠ [] ∧ ∃ kind, Token.kindAt? rest = some kind ∧ found = kind.name
  | .unexpectedEnd _, rest => rest = []
  | .nestingTooDeep _, rest => rest.head? = some '('
  | .divisionByZero, rest => rest.head? = some '/'
  | .unsupportedOperator _, _ | .stackUnderflow _, _ | .excessValues _, _ | .other _ _, _ => False

namespace Token

/-- Where a digit stands, a number starts. -/
theorem kindAt?_eq_of_isDigit {c : Char} (h : Text.isDigit c = true) (rest : List Char) :
    kindAt? (c :: rest) = some .number := by
  simp [kindAt?, h]

/-- Where no digit stands, the kind of token is that of the symbol. -/
theorem kindAt?_eq_of_not_isDigit {c : Char} (h : ¬Text.isDigit c = true) (rest : List Char) :
    kindAt? (c :: rest) = ofSymbol? c := by
  simp [kindAt?, h]

/-- No symbol is an end mark. -/
theorem ofSymbol?_ne_eof (c : Char) : ofSymbol? c ≠ some .eof := by
  unfold ofSymbol?
  split <;> simp

/-- The only character of a kind of token that is a single character. -/
theorem eq_of_ofSymbol? {c : Char} {kind : TokenKind} (h : ofSymbol? c = some kind) :
    (kind = .lparen → c = '(') ∧ (kind = .slash → c = '/') ∧ kind ≠ .number := by
  unfold ofSymbol? at h
  split at h <;> cases h <;> simp

/-- In a text that starts at a position, a token stands where its lexeme starts. A number has a
value. -/
def StandsIn (p : Position) (cs : List Char) (t : Token) : Prop :=
  t.kind ≠ .eof ∧ (t.kind = .number → t.value.isSome) ∧
    ∃ rest, p.Reaches cs t.pos rest ∧ kindAt? rest = some t.kind

/-- A token that stands behind some characters stands in the text with these in front. -/
theorem StandsIn.append {p : Position} {passed cs : List Char} {t : Token}
    (h : t.StandsIn (p.along passed) cs) : t.StandsIn p (passed ++ cs) := by
  obtain ⟨hkind, hvalue, rest, hreaches, hrest⟩ := h
  exact ⟨hkind, hvalue, rest, hreaches.append, hrest⟩

/-- A token that stands behind a character stands in the text with this in front. -/
theorem StandsIn.cons {p : Position} {c : Char} {cs : List Char} {t : Token}
    (h : t.StandsIn (p.after c) cs) : t.StandsIn p (c :: cs) := by
  have h' : t.StandsIn (p.along [c]) cs := h
  exact h'.append

/-- Every token of a scan stands where its lexeme starts, and the end mark stands at the end. -/
theorem standsIn_of_scanFrom {p : Position} {cs : List Char} {s : TokenSequence}
    (h : scanFrom p cs = .ok s) : s.finish = p.along cs ∧ ∀ t ∈ s.body, t.StandsIn p cs := by
  fun_induction scanFrom p cs generalizing s with
  | case1 p =>
      cases h
      exact ⟨rfl, by simp⟩
  | case2 p c rest hgap ih =>
      obtain ⟨hfinish, hbody⟩ := ih h
      exact ⟨hfinish, fun t ht => (hbody t ht).cons⟩
  | case3 => cases h
  | case4 p c rest hgap hdigit numeral value hvalue =>
      rename_i ih
      obtain ⟨others, hothers, rfl⟩ := Outcome.map_eq_ok_iff.mp h
      obtain ⟨hfinish, hbody⟩ := ih hothers
      rw [← Numeral.text_append_rest (c :: rest)]
      refine ⟨hfinish.trans (Position.along_append ..).symm, ?_⟩
      intro t ht
      rcases List.mem_cons.mp ht with rfl | ht
      · refine ⟨by simp, by simp, c :: rest, ?_, kindAt?_eq_of_isDigit hdigit rest⟩
        rw [Numeral.text_append_rest]
        exact .refl p _
      · exact (hbody t ht).append
  | case5 p rest hgap hdigit ih =>
      obtain ⟨hfinish, hbody⟩ := ih h
      have hsplit : ';' :: rest.takeWhile inComment ++ rest.dropWhile inComment = ';' :: rest := by
        simp [List.takeWhile_append_dropWhile]
      rw [← hsplit]
      exact ⟨hfinish.trans (Position.along_append ..).symm, fun t ht => (hbody t ht).append⟩
  | case6 p c rest hgap hdigit hcomment kind hkind ih =>
      obtain ⟨others, hothers, rfl⟩ := Outcome.map_eq_ok_iff.mp h
      obtain ⟨hfinish, hbody⟩ := ih hothers
      refine ⟨hfinish, ?_⟩
      intro t ht
      rcases List.mem_cons.mp ht with rfl | ht
      · have hstart := kindAt?_eq_of_not_isDigit hdigit rest
        refine ⟨?_, ?_, c :: rest, .refl p _, hstart.trans hkind⟩
        · rintro rfl
          exact ofSymbol?_ne_eof c hkind
        · intro hnumber
          exact absurd hnumber (eq_of_ofSymbol? hkind).2.2
      · exact (hbody t ht).cons
  | case7 => cases h

/-- A fault of scanning stands at its culprit. -/
theorem blames_of_scanFrom {p : Position} {cs : List Char} {fault : Fault}
    (h : scanFrom p cs = .error fault) :
    ∃ q rest, fault.pos = some q ∧ p.Reaches cs q rest ∧ fault.cause.Blames rest := by
  fun_induction scanFrom p cs with
  | case1 => cases h
  | case2 p c rest hgap ih =>
      obtain ⟨q, more, hpos, hreaches, hblames⟩ := ih h
      exact ⟨q, more, hpos, hreaches.cons, hblames⟩
  | case3 p c rest hgap hdigit numeral hvalue =>
      cases h
      exact ⟨p, c :: rest, rfl, .refl p _, kindAt?_eq_of_isDigit hdigit rest, hvalue, rfl⟩
  | case4 p c rest hgap hdigit numeral value hvalue ih =>
      obtain ⟨q, more, hpos, hreaches, hblames⟩ := ih (Outcome.map_eq_error_iff.mp h)
      rw [← Numeral.text_append_rest (c :: rest)]
      exact ⟨q, more, hpos, hreaches.append, hblames⟩
  | case5 p rest hgap hdigit ih =>
      obtain ⟨q, more, hpos, hreaches, hblames⟩ := ih h
      have hsplit : ';' :: rest.takeWhile inComment ++ rest.dropWhile inComment = ';' :: rest := by
        simp [List.takeWhile_append_dropWhile]
      rw [← hsplit]
      exact ⟨q, more, hpos, hreaches.append, hblames⟩
  | case6 p c rest hgap hdigit hcomment kind hkind ih =>
      obtain ⟨q, more, hpos, hreaches, hblames⟩ := ih (Outcome.map_eq_error_iff.mp h)
      exact ⟨q, more, hpos, hreaches.cons, hblames⟩
  | case7 p c rest hgap hdigit hcomment hkind =>
      cases h
      have hstart := kindAt?_eq_of_not_isDigit hdigit rest
      exact ⟨p, c :: rest, rfl, .refl p _, hstart.trans hkind, c, rfl, rfl⟩

end Token

end Calculator
