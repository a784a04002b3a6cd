import Calculator.Proofs.Expr.Origin
import Calculator.Proofs.Expr.Viability
import Mathlib.Order.Bounds.Basic

/-!
# The earliest fault

Parsing stops at the first token that cannot be read. That token is where the tokens cease to be viable,
unless the parser stops because of the limit: then the token before it opens the first group that lies
too deep. How many groups a state has open is what the tokens read leave open, so both places can be
told from the tokens alone, and the earlier of them is the one that is reported.
-/

set_option autoImplicit false

namespace Calculator

/-- How many groups some tokens leave open: the openings less the closings among them. -/
def groupBalance (tokens : List Token) : Int :=
  tokens.countP (·.kind == .lparen) - tokens.countP (·.kind == .rparen)

/-- Without tokens, nothing is opened or closed. -/
@[simp] theorem groupBalance_nil : groupBalance [] = 0 := rfl

namespace ParseState

variable {scope : Scope}

end ParseState

/-! ## Where parsing stops -/

namespace StopsAt

variable {limit : Nat} {tokens : List Token} {outcome : Except Fault Expr} {read : List Token}
  {reached : ParseState} {t : Token} {rest : List Token}

end StopsAt

end Calculator
