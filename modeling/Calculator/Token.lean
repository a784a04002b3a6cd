import Calculator.Fault
import Calculator.Number.Literal
import Calculator.Text.Pad

/-!
# Tokens

A token is a word of the language with its position; a number also carries its value. A text becomes
a sequence of tokens that closes with an end mark.
-/

set_option autoImplicit false

namespace Calculator

/-- The words of the language. A token list from elsewhere may hold words of other names. -/
inductive TokenKind where
  | number
  | plus
  | minus
  | star
  | slash
  | lparen
  | rparen
  | eof
  | other (name : String)
deriving DecidableEq, Repr

namespace TokenKind

/-- The name of a kind of token. -/
def name : TokenKind → String
  | .number => "NUMBER"
  | .plus => "PLUS"
  | .minus => "MINUS"
  | .star => "STAR"
  | .slash => "SLASH"
  | .lparen => "LPAREN"
  | .rparen => "RPAREN"
  | .eof => "EOF"
  | .other name => name

/-- The kind of token that has a name. -/
def ofName (name : String) : TokenKind :=
  match name with
  | "NUMBER" => .number
  | "PLUS" => .plus
  | "MINUS" => .minus
  | "STAR" => .star
  | "SLASH" => .slash
  | "LPAREN" => .lparen
  | "RPAREN" => .rparen
  | "EOF" => .eof
  | name => .other name

/-- The kind that a name stands for has that name. -/
theorem name_ofName (name : String) : (ofName name).name = name := by
  unfold ofName
  split <;> rfl

end TokenKind

/-- A word with its position, and its value if it is a number. -/
structure Token where
  kind : TokenKind
  pos : Position
  value : Option Float
deriving DecidableEq

namespace Token

/-- A token on one line, in angle brackets. -/
def text (t : Token) : String :=
  let value := match t.value with
    | none => ""
    | some x => " " ++ Number.literal x
  "<" ++ t.pos.text ++ " " ++ t.kind.name ++ value ++ ">"

/-- The fault of a token that cannot stand where it stands. -/
def unexpected (t : Token) (expected : Option String) : Fault :=
  match t.kind with
  | .eof => ⟨.unexpectedEnd expected, some t.pos⟩
  | kind => ⟨.unexpectedToken kind.name expected, some t.pos⟩

/-- One row of the table of tokens. -/
def row (t : Token) : String :=
  Text.padRight 6 (toString t.pos.line) ++ "| " ++ Text.padRight 7 (toString t.pos.column) ++ "| " ++
    Text.padRight 10 t.kind.name ++ "| " ++ ((t.value.map Number.literal).getD "") ++ "\n"

/-- The table of tokens, one row each under a heading. -/
def table (tokens : List Token) : String :=
  if tokens.isEmpty then "No tokens found!\n"
  else
    Text.padRight 6 "Line" ++ "| " ++ Text.padRight 7 "Column" ++ "| " ++ Text.padRight 10 "Token" ++
      "| Value\n" ++ String.ofList (Text.fill 40 '-') ++ "\n" ++ String.join (tokens.map row)

end Token

/-- The tokens of a text and the position of its end. -/
structure TokenSequence where
  body : List Token
  finish : Position
deriving DecidableEq

namespace TokenSequence

/-- The end mark of a sequence. -/
def endMark (s : TokenSequence) : Token := ⟨.eof, s.finish, none⟩

/-- A sequence as a list that closes with the end mark. -/
def toList (s : TokenSequence) : List Token := s.body ++ [s.endMark]

/-- A sequence with one more token in front. -/
def cons (t : Token) (s : TokenSequence) : TokenSequence := ⟨t :: s.body, s.finish⟩

/-- The sequence up to the first end mark of a list. A list that does not close with an end mark has
none. -/
def ofList? (tokens : List Token) : Option TokenSequence :=
  if tokens.getLast?.any (·.kind == .eof) then
    (tokens.find? (·.kind == .eof)).map fun mark =>
      ⟨tokens.takeWhile (·.kind != .eof), mark.pos⟩
  else none

/-- A token in front of a sequence is the first of its tokens. -/
@[simp] theorem toList_cons (t : Token) (s : TokenSequence) :
    (cons t s).toList = t :: s.toList := rfl

end TokenSequence

end Calculator
