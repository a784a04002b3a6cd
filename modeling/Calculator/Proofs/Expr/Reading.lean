import Calculator.Proofs.Expr.Calls
import Calculator.Proofs.Expr.Grammar

/-!
# The parser reads what the grammar derives

The parser keeps pending what it cannot complete yet, so a phrase is read in the middle of a state:
with levels around it, a sum or a product to its left, and tokens after it. For each kind of phrase
`Derives.Reads` says what reading it does to such a state, and `Derives.reads` proves it by induction
over the derivation, as long as the groups of the phrase fit under the limit. `Derives.refuses` is the
other half: a phrase whose groups do not fit is refused, whatever follows it.
-/

set_option autoImplicit false

namespace Calculator

namespace ParseState

variable {scope : Scope} {finish : Position}

/-! ## Single steps -/

/-- A number completes an operand. -/
theorem next?_operand_number (level : Level) (outer : List Level) {t : Token}
    (ht : t.kind = .number) :
    next? scope (.operand level outer) t = some (afterOperand level (numberOperand t) outer) := by
  simp [next?, operandNext?, ht]

/-- A sign before an operand is kept on the level. -/
theorem next?_operand_sign (level : Level) (outer : List Level) {t : Token} {op : Operator}
    (ht : t.kind.additive? = some op) :
    next? scope (.operand level outer) t = some (.operand (level.withSign op t.pos) outer) := by
  unfold TokenKind.additive? at ht
  split at ht
  · next hkind => cases ht; simp [next?, operandNext?, hkind]
  · next hkind => cases ht; simp [next?, operandNext?, hkind]
  · cases ht

/-- An opening before an operand opens a group. -/
theorem next?_operand_lparen (level : Level) (outer : List Level) {t : Token}
    (ht : t.kind = .lparen) :
    next? scope (.operand level outer) t = some (.opened t.pos level outer) := by
  simp [next?, operandNext?, ht]

/-- A group that is closed at once is an empty group. -/
theorem next?_opened_rparen (pos : Position) (level : Level) (outer : List Level) {t : Token}
    (ht : t.kind = .rparen) :
    next? scope (.opened pos level outer) t = some (afterOperand level (.empty pos) outer) := by
  simp [next?, ht]

/-- Where the phrase asked for is an expression, no token is held back from a term. -/
theorem next?_operator (hgoal : scope.goal = .expression) (sum : Option Pending) (term : Expr)
    (outer : List Level) (t : Token) :
    next? scope (.operator sum term outer) t = operatorNext? sum term outer t := by
  simp [next?, hgoal, Goal.goesOnWith]

/-- A plus or a minus after a term makes it part of a sum. -/
theorem operatorNext?_additive (sum : Option Pending) (term : Expr) (outer : List Level) {t : Token}
    {op : Operator} (ht : t.kind.additive? = some op) :
    operatorNext? sum term outer t =
      some (.operand ⟨some ⟨Pending.join sum term, op, t.pos⟩, none, []⟩ outer) := by
  unfold TokenKind.additive? at ht
  split at ht
  · next hkind => cases ht; simp [operatorNext?, hkind]
  · next hkind => cases ht; simp [operatorNext?, hkind]
  · cases ht

/-- A star or a slash after a term makes it the left side of a product. -/
theorem operatorNext?_multiplicative (sum : Option Pending) (term : Expr) (outer : List Level)
    {t : Token} {op : Operator} (ht : t.kind.multiplicative? = some op) :
    operatorNext? sum term outer t = some (.operand ⟨sum, some ⟨term, op, t.pos⟩, []⟩ outer) := by
  unfold TokenKind.multiplicative? at ht
  split at ht
  · next hkind => cases ht; simp [operatorNext?, hkind]
  · next hkind => cases ht; simp [operatorNext?, hkind]
  · cases ht

/-- An opening after a term makes it the left side of a product with the group. -/
theorem operatorNext?_lparen (sum : Option Pending) (term : Expr) (outer : List Level) {t : Token}
    (ht : t.kind = .lparen) :
    operatorNext? sum term outer t =
      some (.opened t.pos ⟨sum, some ⟨term, .times, t.pos⟩, []⟩ outer) := by
  simp [operatorNext?, ht]

/-- A closing after a term completes the group as an operand of the level around it. -/
theorem operatorNext?_rparen (sum : Option Pending) (term : Expr) (level : Level)
    (outer : List Level) {t : Token} (ht : t.kind = .rparen) :
    operatorNext? sum term (level :: outer) t =
      some (afterOperand level (Pending.join sum term) outer) := by
  simp [operatorNext?, ht]

/-- A group is too deep if those that count as open and itself are more than the limit. -/
theorem tooDeep_eq_true_iff {outer : List Level} :
    tooDeep scope outer = true ↔ scope.limit < scope.depth + outer.length + 1 := by
  simp [tooDeep]

/-- A group that has room, and that is not closed at once, is read as an expression one level
further in. -/
theorem runFreely_opened (pos : Position) (level : Level) (outer : List Level) {t : Token}
    (ht : t.kind ≠ .rparen) (hroom : scope.depth + outer.length + 1 ≤ scope.limit)
    (rest : List Token) :
    (ParseState.opened pos level outer).runFreely scope finish (t :: rest) =
      (ParseState.operand .fresh (level :: outer)).runFreely scope finish (t :: rest) := by
  have hdeep : tooDeep scope outer = false := by
    rw [Bool.eq_false_iff, ne_eq, tooDeep_eq_true_iff]
    omega
  simp [runFreely, next?, outcome, openGroups, ht, hdeep]

/-- A group that has no room, and that is not closed at once, is refused where it opens. -/
theorem runFreely_opened_of_tooDeep (pos : Position) (level : Level) (outer : List Level) {t : Token}
    (ht : t.kind ≠ .rparen) (hroom : scope.limit < scope.depth + outer.length + 1)
    (rest : List Token) :
    ((ParseState.opened pos level outer).runFreely scope finish (t :: rest)).outcome =
      .error ⟨.nestingTooDeep scope.limit, some pos⟩ := by
  have hdeep : tooDeep scope outer = true := tooDeep_eq_true_iff.mpr hroom
  simp [runFreely, next?, outcome, ht, hdeep]

end ParseState

namespace Derives

open ParseState

/-! ## What fits is read -/

/-- What reading a phrase does to the state of the parser. An expression or a whole text is read on
a fresh level and leaves a sum and a term that make up its tree; a term is read after any sum; a factor
is read on any level; and a group is read from behind its opening token. -/
def Reads (scope : Scope) (finish : Position) (outer : List Level) :
    Phrase → List Token → Expr → Prop
  | .whole, tokens, e | .expression, tokens, e =>
    ∀ rest, ∃ sum term, Pending.join sum term = e ∧
      (ParseState.operand .fresh outer).runFreely scope finish (tokens ++ rest) =
        (ParseState.operator sum term outer).runFreely scope finish rest
  | .term, tokens, e =>
    ∀ sum rest, (ParseState.operand ⟨sum, none, []⟩ outer).runFreely scope finish (tokens ++ rest) =
      (ParseState.operator sum e outer).runFreely scope finish rest
  | .factor, tokens, e =>
    ∀ level rest, (ParseState.operand level outer).runFreely scope finish (tokens ++ rest) =
      (afterOperand level e outer).runFreely scope finish rest
  | .group, tokens, e =>
    ∃ opening inner, tokens = opening :: inner ∧ opening.kind = .lparen ∧
      ∀ level rest, (ParseState.opened opening.pos level outer).runFreely scope finish (inner ++ rest) =
        (afterOperand level e outer).runFreely scope finish rest

/-- A phrase whose groups fit under the limit is read, and leaves its tree. -/
theorem reads {scope : Scope} (finish : Position) (hgoal : scope.goal = .expression)
    {phrase : Phrase} {tokens : List Token} {n : Nat} {e : Expr} (h : Derives phrase tokens n e)
    (outer : List Level) (hroom : scope.depth + outer.length + n ≤ scope.limit) :
    Reads scope finish outer phrase tokens e := by
  induction h generalizing outer with
  | whole _ ih => exact ih outer hroom
  | term _ ih =>
      intro rest
      exact ⟨none, _, rfl, ih outer hroom none rest⟩
  | @sum first second n m left right t op hl ht hr ihl ihr =>
      intro rest
      obtain ⟨sum, term, hjoin, hrun⟩ := ihl outer (by omega) (t :: (second ++ rest))
      refine ⟨some ⟨left, op, t.pos⟩, right, rfl, ?_⟩
      have hnext := operatorNext?_additive sum term outer ht
      rw [← next?_operator hgoal, hjoin] at hnext
      rw [List.append_assoc, List.cons_append, hrun, runFreely_cons hnext]
      exact ihr outer (by omega) _ rest
  | factor _ ih =>
      intro sum rest
      exact ih outer hroom ⟨sum, none, []⟩ rest
  | @product first second n m left right t op hl ht hr ihl ihr =>
      intro sum rest
      have hnext := operatorNext?_multiplicative sum left outer ht
      rw [← next?_operator hgoal] at hnext
      rw [List.append_assoc, List.cons_append, ihl outer (by omega) sum, runFreely_cons hnext]
      exact ihr outer (by omega) _ rest
  | @implied first second n m left right opening hl hr ihl ihr =>
      intro sum rest
      obtain ⟨opening', inner, htokens, hopening, hrun⟩ := ihr outer (by omega)
      cases htokens
      have hnext := operatorNext?_lparen sum left outer hopening
      rw [← next?_operator hgoal] at hnext
      rw [List.append_assoc, List.cons_append, ihl outer (by omega) sum, runFreely_cons hnext]
      exact hrun _ rest
  | number ht =>
      intro level rest
      exact runFreely_cons (next?_operand_number level outer ht) rest
  | group _ ih =>
      intro level rest
      obtain ⟨opening, inner, rfl, hopening, hrun⟩ := ih outer hroom
      rw [List.cons_append, runFreely_cons (next?_operand_lparen level outer hopening)]
      exact hrun level rest
  | @sign tokens n e t op ht _ ih =>
      intro level rest
      rw [List.cons_append, runFreely_cons (next?_operand_sign level outer ht)]
      exact ih outer hroom (level.withSign op t.pos) rest
  | emptyGroup ho hc =>
      refine ⟨_, _, rfl, ho, ?_⟩
      intro level rest
      exact runFreely_cons (next?_opened_rparen _ level outer hc) rest
  | @fullGroup tokens n e opening closing ho h hc ih =>
      refine ⟨opening, tokens ++ [closing], rfl, ho, ?_⟩
      intro level rest
      -- The content is an expression on a fresh level inside the level of the group.
      obtain ⟨t, others, htokens, ht⟩ := h.exists_head
      obtain ⟨sum, term, hjoin, hrun⟩ := ih (level :: outer)
        (by simp only [List.length_cons]; omega) (closing :: rest)
      rw [List.append_assoc, List.singleton_append]
      rw [htokens, List.cons_append] at hrun ⊢
      have hnext := operatorNext?_rparen sum term level outer hc
      rw [← next?_operator hgoal, hjoin] at hnext
      rw [runFreely_opened opening.pos level outer ht (by omega), hrun, runFreely_cons hnext]

/-! ## What does not fit is refused -/

/-- Parsing stopped because the groups nest too deep. -/
def StopsTooDeep (scope : Scope) (stop : ParseStop (Except Fault Expr)) : Prop :=
  ∃ pos, stop.outcome = .error ⟨.nestingTooDeep scope.limit, some pos⟩

/-- What it means that a phrase is refused: from the states in which it could be read, and whatever
tokens follow, parsing stops because the groups nest too deep. -/
def Refuses (scope : Scope) (finish : Position) (outer : List Level) :
    Phrase → List Token → Prop
  | .whole, tokens | .expression, tokens =>
    ∀ rest, StopsTooDeep scope
      ((ParseState.operand .fresh outer).runFreely scope finish (tokens ++ rest))
  | .term, tokens =>
    ∀ sum rest, StopsTooDeep scope
      ((ParseState.operand ⟨sum, none, []⟩ outer).runFreely scope finish (tokens ++ rest))
  | .factor, tokens =>
    ∀ level rest, StopsTooDeep scope
      ((ParseState.operand level outer).runFreely scope finish (tokens ++ rest))
  | .group, tokens =>
    ∃ opening inner, tokens = opening :: inner ∧ opening.kind = .lparen ∧
      ∀ level rest, StopsTooDeep scope
        ((ParseState.opened opening.pos level outer).runFreely scope finish (inner ++ rest))

/-- A phrase whose groups do not fit under the limit is refused. -/
theorem refuses {scope : Scope} (finish : Position) (hgoal : scope.goal = .expression)
    {phrase : Phrase} {tokens : List Token} {n : Nat} {e : Expr} (h : Derives phrase tokens n e)
    (outer : List Level) (hbase : scope.depth + outer.length ≤ scope.limit)
    (hdeep : scope.limit < scope.depth + outer.length + n) :
    Refuses scope finish outer phrase tokens := by
  induction h generalizing outer with
  | whole _ ih => exact ih outer hbase hdeep
  | term _ ih =>
      intro rest
      exact ih outer hbase hdeep none rest
  | @sum first second n m left right t op hl ht hr ihl ihr =>
      intro rest
      rw [List.append_assoc, List.cons_append]
      by_cases hfits : scope.depth + outer.length + n ≤ scope.limit
      · -- The left operand is read, so the groups that do not fit are in the right one.
        obtain ⟨sum, term, hjoin, hrun⟩ :=
          reads finish hgoal hl outer hfits (t :: (second ++ rest))
        have hnext := operatorNext?_additive sum term outer ht
        rw [← next?_operator hgoal] at hnext
        rw [hrun, runFreely_cons hnext]
        exact ihr outer hbase (by omega) _ rest
      · exact ihl outer hbase (by omega) _
  | factor _ ih =>
      intro sum rest
      exact ih outer hbase hdeep ⟨sum, none, []⟩ rest
  | @product first second n m left right t op hl ht hr ihl ihr =>
      intro sum rest
      rw [List.append_assoc, List.cons_append]
      by_cases hfits : scope.depth + outer.length + n ≤ scope.limit
      · have hnext := operatorNext?_multiplicative sum left outer ht
        rw [← next?_operator hgoal] at hnext
        rw [reads finish hgoal hl outer hfits sum, runFreely_cons hnext]
        exact ihr outer hbase (by omega) _ rest
      · exact ihl outer hbase (by omega) sum _
  | @implied first second n m left right opening hl hr ihl ihr =>
      intro sum rest
      rw [List.append_assoc, List.cons_append]
      by_cases hfits : scope.depth + outer.length + n ≤ scope.limit
      · obtain ⟨opening', inner, htokens, hopening, hrun⟩ := ihr outer hbase (by omega)
        cases htokens
        have hnext := operatorNext?_lparen sum left outer hopening
        rw [← next?_operator hgoal] at hnext
        rw [reads finish hgoal hl outer hfits sum, runFreely_cons hnext]
        exact hrun _ rest
      · exact ihl outer hbase (by omega) sum _
  | number ht => omega
  | group _ ih =>
      intro level rest
      obtain ⟨opening, inner, rfl, hopening, hrun⟩ := ih outer hbase hdeep
      rw [List.cons_append, runFreely_cons (next?_operand_lparen level outer hopening)]
      exact hrun level rest
  | @sign tokens n e t op ht _ ih =>
      intro level rest
      rw [List.cons_append, runFreely_cons (next?_operand_sign level outer ht)]
      exact ih outer hbase hdeep (level.withSign op t.pos) rest
  | emptyGroup ho hc => omega
  | @fullGroup tokens n e opening closing ho h hc ih =>
      refine ⟨opening, tokens ++ [closing], rfl, ho, ?_⟩
      intro level rest
      obtain ⟨t, others, htokens, ht⟩ := h.exists_head
      rw [List.append_assoc]
      by_cases hroom : scope.depth + outer.length + 1 ≤ scope.limit
      · have hrun := ih (level :: outer) (by simp only [List.length_cons]; omega)
          (by simp only [List.length_cons]; omega) ([closing] ++ rest)
        rw [htokens, List.cons_append] at hrun ⊢
        rw [runFreely_opened opening.pos level outer ht hroom]
        exact hrun
      · rw [htokens, List.cons_append]
        exact ⟨_, runFreely_opened_of_tooDeep opening.pos level outer ht (by omega) _⟩

end Derives

end Calculator
