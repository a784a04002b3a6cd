import Calculator.Place
import Calculator.Token

/-!
# Token streams

A stream is a list of tokens and how many of them have been read. Reading never goes past an end
mark, and looking ahead stays on the last token.
-/

set_option autoImplicit false

namespace Calculator

/-- A list of tokens and how many have been read. -/
structure TokenStream where
  tokens : List Token
  index : Nat
deriving DecidableEq

namespace TokenStream

/-- A stream at its start. -/
def ofList (tokens : List Token) : TokenStream := ⟨tokens, 0⟩

/-- The token some places ahead, or the last one if that is nearer. A place before the start counts
back from the end of the list, and there is no token if it leaves the list on that side too. -/
def peek? (s : TokenStream) (ahead : Int) : Option Token :=
  atPlace? s.tokens (min ((s.index : Int) + ahead) ((s.tokens.length : Int) - 1))

/-- The token that is read next. -/
def current? (s : TokenStream) : Option Token := s.peek? 0

/-- Whether the next token is an end mark. -/
def atEnd? (s : TokenStream) : Option Bool := s.current?.map (·.kind == .eof)

/-- The stream after a token that has been looked at; an end mark is not passed. -/
def passing (s : TokenStream) (t : Token) : TokenStream :=
  if t.kind = .eof then s else { s with index := s.index + 1 }

/-- Reads the next token. -/
def advance? (s : TokenStream) : Option (Token × TokenStream) :=
  s.current?.map fun t => (t, s.passing t)

/-- Reads the next token if it is of one of the kinds. -/
def accept? (s : TokenStream) (kinds : List TokenKind) : Option (Option Token × TokenStream) :=
  s.current?.map fun t => if kinds.contains t.kind then (some t, s.passing t) else (none, s)

/-- Reads the next token, which has to be of a kind. -/
def expect? (s : TokenStream) (kind : TokenKind) (what : String) :
    Option (Except Fault (Token × TokenStream)) :=
  s.current?.map fun t =>
    if t.kind = kind then .ok (t, s.passing t) else .error (t.unexpected (some what))

end TokenStream

end Calculator
