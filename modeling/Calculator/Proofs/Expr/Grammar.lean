import Calculator.Expr.Parse

/-!
# The grammar

    expression := term (("+" | "-") term)*
    term       := factor (("*" | "/") factor | group)*
    factor     := number | group | ("+" | "-") factor
    group      := "(" [expression] ")"

The grammar as a relation between the tokens of a phrase, how deep groups nest in it, and the tree it
denotes. A repetition is written as left recursion, because that is what it denotes: the left operand
of an operation is everything that was repeated before it.

Nothing here mentions the states of the parser. Parsing is compared with this relation in the modules
that follow.
-/

set_option autoImplicit false

namespace Calculator

/-- The operator of a token that joins two terms, or that is a sign before a factor. -/
def TokenKind.additive? : TokenKind → Option Operator
  | .plus => some .plus
  | .minus => some .minus
  | _ => none

/-- The operator of a token that joins two factors. -/
def TokenKind.multiplicative? : TokenKind → Option Operator
  | .star => some .times
  | .slash => some .over
  | _ => none

/-- `Derives phrase tokens nesting e`: the tokens form the phrase, they denote the tree, and the
longest chain of groups that lie one inside the other and are not empty has that many groups. -/
inductive Derives : Phrase → List Token → Nat → Expr → Prop where
  | whole {tokens : List Token} {n : Nat} {e : Expr} (h : Derives .expression tokens n e) :
      Derives .whole tokens n e
  | term {tokens : List Token} {n : Nat} {e : Expr} (h : Derives .term tokens n e) :
      Derives .expression tokens n e
  | sum {first second : List Token} {n m : Nat} {left right : Expr} {t : Token} {op : Operator}
      (hl : Derives .expression first n left) (ht : t.kind.additive? = some op)
      (hr : Derives .term second m right) :
      Derives .expression (first ++ t :: second) (max n m) (.binary op left right t.pos)
  | factor {tokens : List Token} {n : Nat} {e : Expr} (h : Derives .factor tokens n e) :
      Derives .term tokens n e
  | product {first second : List Token} {n m : Nat} {left right : Expr} {t : Token} {op : Operator}
      (hl : Derives .term first n left) (ht : t.kind.multiplicative? = some op)
      (hr : Derives .factor second m right) :
      Derives .term (first ++ t :: second) (max n m) (.binary op left right t.pos)
  /-- A group right after a term multiplies it; the operation stands where the group opens. -/
  | implied {first second : List Token} {n m : Nat} {left right : Expr} {opening : Token}
      (hl : Derives .term first n left) (hr : Derives .group (opening :: second) m right) :
      Derives .term (first ++ opening :: second) (max n m)
        (.binary .times left right opening.pos)
  | number {t : Token} (ht : t.kind = .number) : Derives .factor [t] 0 (ParseState.numberOperand t)
  | group {tokens : List Token} {n : Nat} {e : Expr} (h : Derives .group tokens n e) :
      Derives .factor tokens n e
  | sign {tokens : List Token} {n : Nat} {e : Expr} {t : Token} {op : Operator}
      (ht : t.kind.additive? = some op) (h : Derives .factor tokens n e) :
      Derives .factor (t :: tokens) n (.unary op e t.pos)
  | emptyGroup {opening closing : Token} (ho : opening.kind = .lparen)
      (hc : closing.kind = .rparen) : Derives .group [opening, closing] 0 (.empty opening.pos)
  | fullGroup {tokens : List Token} {n : Nat} {e : Expr} {opening closing : Token}
      (ho : opening.kind = .lparen) (h : Derives .expression tokens n e)
      (hc : closing.kind = .rparen) :
      Derives .group (opening :: (tokens ++ [closing])) (n + 1) e

namespace TokenKind

/-- A plus or a minus closes no group. -/
theorem ne_rparen_of_additive? {kind : TokenKind} {op : Operator}
    (h : kind.additive? = some op) : kind ≠ .rparen := by
  rintro rfl
  cases h

end TokenKind

namespace Derives

/-- A phrase has a first token, and a group is never closed by it. -/
theorem exists_head {phrase : Phrase} {tokens : List Token} {n : Nat} {e : Expr}
    (h : Derives phrase tokens n e) : ∃ t rest, tokens = t :: rest ∧ t.kind ≠ .rparen := by
  induction h with
  | whole _ ih | term _ ih | factor _ ih | group _ ih => exact ih
  | sum _ _ _ ih _ | product _ _ _ ih _ | implied _ _ ih _ =>
      obtain ⟨t, rest, rfl, ht⟩ := ih
      exact ⟨t, _, rfl, ht⟩
  | number ht => exact ⟨_, _, rfl, by simp [ht]⟩
  | sign ht _ _ => exact ⟨_, _, rfl, TokenKind.ne_rparen_of_additive? ht⟩
  | emptyGroup ho _ => exact ⟨_, _, rfl, by simp [ho]⟩
  | fullGroup ho _ _ _ => exact ⟨_, _, rfl, by simp [ho]⟩

end Derives

end Calculator
