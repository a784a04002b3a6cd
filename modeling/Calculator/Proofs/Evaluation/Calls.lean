import Calculator.Evaluation
import Calculator.Proofs.Expr.Calls

/-!
# Room for evaluating a text

Of all stages only parsing takes calls that nest with the text. So a text has the same value, or the same
fault, wherever its calls fit; and where they do not, it counts as nested too deep. The calls of every text
fit where there is room for those that the limit on groups allows.
-/

set_option autoImplicit false

namespace Calculator

/-- There is room for the calls that parsing the tokens of a text takes, the call of the parser counted. A
text that cannot be scanned is not parsed. -/
def TextFits (room : Nat) (text : String) : Prop :=
  ∀ tokens, Token.scan text = .ok tokens → Expr.CallsFit room Parser.defaultLimit tokens

variable {room room' : Nat} {text : String}

/-- Every text fits where there is room for the calls that the limit on groups allows. -/
theorem textFits_of_le (h : 1011 ≤ room) (text : String) : TextFits room text :=
  fun tokens _ => Expr.callsFit_of_limit h tokens

/-- A text that does not fit has been scanned, and its tokens do not fit. -/
theorem exists_scan_of_not_textFits (h : ¬TextFits room text) :
    ∃ tokens, Token.scan text = .ok tokens ∧ ¬Expr.CallsFit room Parser.defaultLimit tokens := by
  simpa [TextFits] using h

/-- Wherever the calls of a text fit, it has the same value or the same fault. -/
theorem textValue_eq_of_textFits (h : TextFits (room - 1) text) (h' : TextFits (room' - 1) text) :
    textValue room text = textValue room' text := by
  unfold textValue
  cases hscan : Token.scan text with
  | error fault => rfl
  | ok tokens =>
      simp only [Except.bind]
      rw [Expr.parse_of_callsFit (h tokens hscan), Expr.parse_of_callsFit (h' tokens hscan)]

/-- Where the calls of a text do not fit, it counts as nested too deep at one of its tokens. -/
theorem textValue_of_not_textFits (h : ¬TextFits (room - 1) text) :
    ∃ tokens, Token.scan text = .ok tokens ∧ ∃ t ∈ tokens.toList,
      textValue room text = .error ⟨.nestingTooDeep Parser.defaultLimit, some t.pos⟩ := by
  obtain ⟨tokens, hscan, hover⟩ := exists_scan_of_not_textFits h
  obtain ⟨index, t, hleast, ht⟩ := Expr.exists_isLeast_overflowAt hover
  refine ⟨tokens, hscan, t, List.mem_of_getElem? ht, ?_⟩
  rw [textValue, hscan, Except.bind, Expr.parse_of_overflow hleast ht, Except.bind]

end Calculator
