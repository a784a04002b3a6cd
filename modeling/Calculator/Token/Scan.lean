import Calculator.Token
import Calculator.Token.Numeral

/-!
# Scanning

Scanning reads a text from left to right. Spaces, tabs, carriage returns, newlines and comments
separate tokens and are dropped; a numeral is taken as long as it goes; every other token is a single
character. The first character that fits nowhere, or the first numeral without a value, is the fault.
-/

set_option autoImplicit false

namespace Calculator

namespace Token

/-- The characters that separate tokens and mean nothing else. -/
def isGap (c : Char) : Bool := c == ' ' || c == '\t' || c == '\r' || c == '\n'

/-- The kind of a token that is a single character. -/
def ofSymbol? : Char → Option TokenKind
  | '+' => some .plus
  | '-' => some .minus
  | '*' => some .star
  | '/' => some .slash
  | '(' => some .lparen
  | ')' => some .rparen
  | _ => none

/-- Whether a character still belongs to a comment that has been opened. -/
def inComment (c : Char) : Bool := c != '\n'

/-- The tokens of a text that starts at a position. -/
def scanFrom (pos : Position) (cs : List Char) : Except Fault TokenSequence :=
  match cs with
  | [] => .ok ⟨[], pos⟩
  | c :: rest =>
    if isGap c then scanFrom (pos.after c) rest
    else if Text.isDigit c then
      let numeral := (Numeral.take (c :: rest)).1
      match numeral.value? with
      | none => .error ⟨.invalidNumber (String.ofList numeral.text), some pos⟩
      | some value =>
        (scanFrom (pos.along numeral.text) (Numeral.take (c :: rest)).2).map
          (TokenSequence.cons ⟨.number, pos, some value⟩)
    else if c = ';' then
      scanFrom (pos.along (c :: rest.takeWhile inComment)) (rest.dropWhile inComment)
    else
      match ofSymbol? c with
      | some kind => (scanFrom (pos.after c) rest).map (TokenSequence.cons ⟨kind, pos, none⟩)
      | none => .error ⟨.unexpectedChar (String.singleton c), some pos⟩
termination_by cs.length
decreasing_by
  · simp
  · exact Numeral.rest_length_lt (by assumption) rest
  · exact Nat.lt_succ_of_le (List.dropWhile_suffix inComment).length_le
  · simp

/-- The tokens of a text. -/
def scan (text : String) : Except Fault TokenSequence := scanFrom Position.start text.toList

end Token

end Calculator
