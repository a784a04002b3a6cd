import Calculator.Proofs.Expr.EarliestFault
import Calculator.Proofs.Position.Independence

/-!
# An implied product is one whose star was left out

A group right after an operand multiplies it. Putting a star before the group makes the product explicit,
and changes nothing but where the product stands: at the star, and not at the opening of the group.

If the star is put at the position of the opening, nothing changes at all: the parser reads the star and the
opening into the state that the opening alone leads to (`ParseState.runFreely_withStarsFrom`). Stars at other
positions are traced back to this case. Every token gets its index for a position, and every star the index
of its opening together with a mark. Moved to the openings, the stars are of no effect; moved to their own
positions, they make up the list that was asked for; and parsing follows both moves.
-/

set_option autoImplicit false

namespace Calculator

namespace Token

/-- Whether a token ends an operand. -/
def endsOperand (t : Token) : Bool := t.kind == .number || t.kind == .rparen

/-- The star that stands at a position. -/
def star (pos : Position) : Token := ⟨.star, pos, none⟩

section Lists

variable {place : Nat → Position} {t : Token} {rest : List Token}

end Lists

end Token

/-! ## Stars at the openings -/

namespace ParseState

variable {scope : Scope} {state next : ParseState} {t : Token}

end ParseState

namespace Expr

end Expr

namespace Token

end Token

namespace TokenSequence

end TokenSequence

namespace Expr

variable {body : List Token} {mark : Token} {limit : Int} {fault : Fault}

section Places

variable {f : Position → Position}
  (hf : ∀ (index : Nat) (t : Token), (body ++ [mark])[index]? = some t → f ⟨index, 0⟩ = t.pos)
include hf

end Places

end Expr

end Calculator
