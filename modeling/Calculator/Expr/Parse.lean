import Calculator.Expr
import Calculator.Token

/-!
# Parsing

    expression := term (("+" | "-") term)*
    term       := factor (("*" | "/") factor | group)*
    factor     := number | group | ("+" | "-") factor
    group      := "(" [expression] ")"

Parsing reads one token after the other and keeps what is still incomplete: for the text at hand and
for every open group the left side of a sum, the left side of a product, and the signs before the
operand that is awaited. Operations of one rank associate to the left, and a group right after an
operand multiplies it. The number of open groups has a limit; an empty group does not count.

A phrase is parsed by a call for each rule that it is derived by, and these calls take room. They nest
as deep as the groups of the text do: a group calls for an expression, that for a term, that for a
factor, and a sign for one more factor. Each token is handled on top of the calls that are open there.
Where it would take more calls than there is room for, parsing stops without an outcome. Reporting a
fault after that is taken to fit, and so are all calls that do not nest with the text.
-/

set_option autoImplicit false

namespace Calculator

/-- The left operand and the operator of an operation whose right operand is awaited. -/
structure Pending where
  left : Expr
  op : Operator
  pos : Position
deriving DecidableEq

/-- The operation completed by its right operand, or that operand alone if none was pending. -/
def Pending.join (pending : Option Pending) (right : Expr) : Expr :=
  match pending with
  | none => right
  | some p => .binary p.op p.left right p.pos

/-- What is incomplete on one level of grouping: a sum awaiting a term, a product awaiting a factor,
and the signs before that factor, the innermost first. -/
structure Level where
  sum : Option Pending
  product : Option Pending
  signs : List (Operator × Position)
deriving DecidableEq

namespace Level

/-- A level on which nothing has been read. -/
def fresh : Level := ⟨none, none, []⟩

/-- A level with one more sign before the awaited factor. -/
def withSign (level : Level) (op : Operator) (pos : Position) : Level :=
  { level with signs := (op, pos) :: level.signs }

/-- The term that an operand completes on a level, up to here. -/
def term (level : Level) (operand : Expr) : Expr :=
  Pending.join level.product (level.signs.foldl (fun e sign => .unary sign.1 e sign.2) operand)

end Level

/-- What parsing has read so far, by what it awaits; `outer` are the levels around the innermost open
group, the nearest first. -/
inductive ParseState where
  /-- The opening of a group is awaited, and nothing has been read. -/
  | group
  /-- An operand is awaited. -/
  | operand (level : Level) (outer : List Level)
  /-- A group has just been opened at a position. -/
  | opened (pos : Position) (level : Level) (outer : List Level)
  /-- A term has been read, which the next token may extend. -/
  | operator (sum : Option Pending) (term : Expr) (outer : List Level)
deriving DecidableEq

/-- The phrases that can be parsed on their own. -/
inductive Goal where
  | expression
  | term
  | factor
deriving DecidableEq, Repr

/-- Whether a phrase of this kind can go on with a token after an operand. -/
def Goal.goesOnWith : Goal → TokenKind → Bool
  | .expression, _ => true
  | .term, kind => kind != .plus && kind != .minus
  | .factor, _ => false

/-- What a run of the parser is asked for: the phrase, the limit on open groups, and how many groups
already count as open. -/
structure Scope where
  goal : Goal
  limit : Int
  depth : Nat
deriving DecidableEq, Repr

namespace ParseState

/-- The words for an operand in messages. -/
def operandWords : String := "a number, '(' or a unary operator"

/-- The operand that a number token is. A token from elsewhere may lack the value, and then there is
no number to hold. -/
def numberOperand (t : Token) : Expr :=
  match t.value with
  | some value => .number value t.pos
  | none => .foreign "Number" (some "None") (some t.pos)

/-- The state after an operand has been read on a level. -/
def afterOperand (level : Level) (e : Expr) (outer : List Level) : ParseState :=
  .operator level.sum (level.term e) outer

/-- The next state where an operand is awaited. -/
def operandNext? (level : Level) (outer : List Level) (t : Token) : Option ParseState :=
  match t.kind with
  | .number => some (afterOperand level (numberOperand t) outer)
  | .plus => some (.operand (level.withSign .plus t.pos) outer)
  | .minus => some (.operand (level.withSign .minus t.pos) outer)
  | .lparen => some (.opened t.pos level outer)
  | _ => none

/-- The next state after a term. -/
def operatorNext? (sum : Option Pending) (term : Expr) (outer : List Level) (t : Token) :
    Option ParseState :=
  let adding (op : Operator) : Level := ⟨some ⟨Pending.join sum term, op, t.pos⟩, none, []⟩
  let multiplying (op : Operator) : Level := ⟨sum, some ⟨term, op, t.pos⟩, []⟩
  match t.kind, outer with
  | .plus, _ => some (.operand (adding .plus) outer)
  | .minus, _ => some (.operand (adding .minus) outer)
  | .star, _ => some (.operand (multiplying .times) outer)
  | .slash, _ => some (.operand (multiplying .over) outer)
  | .lparen, _ => some (.opened t.pos (multiplying .times) outer)
  | .rparen, level :: rest => some (afterOperand level (Pending.join sum term) rest)
  | _, _ => none

/-- Whether one more open group is over the limit. -/
def tooDeep (scope : Scope) (outer : List Level) : Bool :=
  scope.limit < (scope.depth + outer.length + 1 : Nat)

/-- The state after reading a token, or nothing if the token cannot be read. -/
def next? (scope : Scope) (state : ParseState) (t : Token) : Option ParseState :=
  match state with
  | .group => if t.kind = .lparen then some (.opened t.pos .fresh []) else none
  | .operand level outer => operandNext? level outer t
  | .opened pos level outer =>
    if t.kind = .rparen then some (afterOperand level (.empty pos) outer)
    else if tooDeep scope outer then none
    else operandNext? .fresh (level :: outer) t
  | .operator sum term outer =>
    if outer.isEmpty && !scope.goal.goesOnWith t.kind then none else operatorNext? sum term outer t

/-- The outcome at a token that cannot be read: the phrase if it is complete, the fault if not. -/
def outcome (scope : Scope) (state : ParseState) (t : Token) : Except Fault Expr :=
  match state with
  | .group => .error (t.unexpected (some "'('"))
  | .operand _ _ => .error (t.unexpected (some operandWords))
  | .opened pos _ outer =>
    if tooDeep scope outer then .error ⟨.nestingTooDeep scope.limit, some pos⟩
    else .error (t.unexpected (some operandWords))
  | .operator sum term outer =>
    if outer.isEmpty then .ok (Pending.join sum term) else .error (t.unexpected (some "')'"))

/-- How many groups count as open where parsing stops. A group whose content is complete no longer
counts, whether or not it is closed. -/
def openGroups : ParseState → Nat
  | .group => 0
  | .operand _ outer => outer.length
  | .opened _ _ outer => outer.length + 1
  | .operator _ _ outer => outer.length - 1

end ParseState

/-! ## Calls -/

/-- How many calls are open while the term of a phrase is parsed. -/
def Goal.termCalls : Goal → Nat
  | .expression => 2
  | .term => 1
  | .factor => 0

/-- How many calls are open while a term is parsed. `groups` says this of every open group, with the call
of the group counted, the innermost first; a group calls for an expression, and that for a term. -/
def Scope.termCalls (scope : Scope) : List Nat → Nat
  | [] => scope.goal.termCalls
  | group :: _ => group + 2

/-- How many calls are open where a factor has been called for, on top of those of its term: a factor
that has signs calls for the factor behind them. -/
def Level.factorCalls (level : Level) (term : Nat) : Nat :=
  if level.signs.isEmpty then term + 1 else term + 2

namespace ParseState

/-- How many calls it takes to handle a token where an operand is awaited; `term` are open for the term.
A sign is read by the factor that it belongs to, and a group by a call of its own. -/
def operandHeight (term : Nat) (level : Level) (t : Token) : Nat :=
  match t.kind with
  | .number => level.factorCalls term + 2
  | .plus | .minus => term + 3
  | _ => level.factorCalls term + 4

/-- How many calls it takes to handle a token. -/
def callHeight (scope : Scope) (groups : List Nat) (state : ParseState) (t : Token) : Nat :=
  let term := scope.termCalls groups
  match state with
  | .group => if t.kind = .lparen then 4 else 6
  | .operand level _ => operandHeight term level t
  | .opened _ _ outer =>
    if t.kind = .rparen then term + 1
    else if tooDeep scope outer then term + 2
    else operandHeight term .fresh t
  | .operator _ _ outer =>
    -- Any other token takes no more calls than the operand before it took.
    if t.kind = .lparen && !(outer.isEmpty && !scope.goal.goesOnWith t.kind) then term + 4
    else term + 3

/-- How many calls are open in a group that opens now, the call of the group counted. A group that
multiplies the operand before it is called for by the term, any other by a factor. -/
def groupCalls (term : Nat) : ParseState → Nat
  | .group => 1
  | .operand level _ => level.factorCalls term + 1
  | .opened _ _ _ => Level.fresh.factorCalls term + 1
  | .operator _ _ _ => term + 1

/-- The calls of the open groups after a token has been read. -/
def groupsAfter (scope : Scope) (groups : List Nat) (state : ParseState) (t : Token) : List Nat :=
  match t.kind with
  | .lparen => state.groupCalls (scope.termCalls groups) :: groups
  | .rparen => groups.tail
  | _ => groups

/-- How many groups count as open where the calls for a token do not fit. -/
def enteredGroups : ParseState → Nat
  | .group => 0
  | .operand _ outer => outer.length
  | .opened _ _ outer => outer.length + 1
  | .operator _ _ outer => outer.length

end ParseState

/-! ## Runs -/

/-- Where and with what parsing stops. -/
structure ParseStop (Outcome : Type) where
  outcome : Outcome
  ahead : List Token
  depth : Nat

namespace ParseState

/-- The state after reading a token, or nothing if the token cannot be read or takes more calls than
there is room for. -/
def step? (room : Nat) (scope : Scope) (groups : List Nat) (state : ParseState) (t : Token) :
    Option ParseState :=
  if room < state.callHeight scope groups t then none else state.next? scope t

/-- What it means to stop at a token: there is no outcome if the calls do not fit. -/
def stop (room : Nat) (scope : Scope) (groups : List Nat) (state : ParseState) (t : Token)
    (ahead : List Token) : ParseStop (Option (Except Fault Expr)) :=
  if room < state.callHeight scope groups t then
    ⟨none, ahead, scope.depth + state.enteredGroups⟩
  else ⟨some (state.outcome scope t), ahead, scope.depth + state.openGroups⟩

/-- Reads tokens as far as they go; `finish` is where the end mark stands. -/
def run (room : Nat) (scope : Scope) (finish : Position) (groups : List Nat) (state : ParseState) :
    List Token → ParseStop (Option (Except Fault Expr))
  | [] => state.stop room scope groups ⟨.eof, finish, none⟩ []
  | t :: rest =>
    match state.step? room scope groups t with
    | some next => next.run room scope finish (state.groupsAfter scope groups t) rest
    | none => state.stop room scope groups t (t :: rest)

end ParseState

/-- The phrases that a parser can be asked for. A whole text is an expression up to the end mark. -/
inductive Phrase where
  | whole
  | expression
  | term
  | factor
  | group
deriving DecidableEq, Repr

namespace Phrase

/-- How far a phrase goes after its first operand. -/
def goal : Phrase → Goal
  | .whole | .expression => .expression
  | .term => .term
  | .factor | .group => .factor

/-- The state in which parsing of a phrase starts. -/
def start : Phrase → ParseState
  | .group => .group
  | _ => .operand .fresh []

end Phrase

/-- A parser between two phrases: the tokens ahead, the position of the end mark, how many tokens have
been read, how many groups count as open, and the limit on them. -/
structure Parser where
  ahead : List Token
  finish : Position
  consumed : Nat
  depth : Nat
  limit : Int

namespace Parser

/-- The limit on open groups unless another is given. -/
def defaultLimit : Int := 200

/-- A parser at the start of a sequence. -/
def ofSequence (s : TokenSequence) (limit : Int) : Parser := ⟨s.body, s.finish, 0, 0, limit⟩

/-- The token that is read next. -/
def current (p : Parser) : Token := p.ahead.head?.getD ⟨.eof, p.finish, none⟩

/-- The parser after it has stopped. -/
def resume {Outcome : Type} (p : Parser) (stop : ParseStop Outcome) : Parser :=
  { p with
    ahead := stop.ahead
    consumed := p.consumed + (p.ahead.length - stop.ahead.length)
    depth := stop.depth }

/-- Where parsing of a phrase stops. -/
def stop (room : Nat) (p : Parser) (phrase : Phrase) : ParseStop (Option (Except Fault Expr)) :=
  phrase.start.run room ⟨phrase.goal, p.limit, p.depth⟩ p.finish [] p.ahead

/-- What a whole text demands of the token after it. -/
def close (p : Parser) (e : Expr) : Except Fault Expr :=
  if p.current.kind = .eof then .ok e
  else .error ⟨.unexpectedToken p.current.kind.name (some "end of input"), some p.current.pos⟩

/-- The fault of a whole text whose calls do not fit: it counts as nested too deep. -/
def overflow (p : Parser) : Fault := ⟨.nestingTooDeep p.limit, some p.current.pos⟩

/-- What a whole text comes to where parsing has stopped. -/
def conclude (p : Parser) : Option (Except Fault Expr) → Except Fault Expr
  | some outcome => outcome.bind p.close
  | none => .error p.overflow

/-- Parses a whole text, which takes one call more than its expression. -/
def readWhole (room : Nat) (p : Parser) : Except Fault Expr × Parser :=
  let stop := p.stop (room - 1) .whole
  let after := p.resume stop
  (after.conclude stop.outcome, after)

/-- Parses a phrase. A parser that meets a fault stays at the token where it stopped. If the calls do not
fit, a whole text has a fault, and any other phrase has no outcome. -/
def read (room : Nat) (p : Parser) : Phrase → Option (Except Fault Expr) × Parser
  | .whole => (some (p.readWhole room).1, (p.readWhole room).2)
  | phrase => ((p.stop room phrase).outcome, p.resume (p.stop room phrase))

end Parser

/-- The expression that a sequence of tokens denotes. `room` is how many calls fit, the call for the
sequence counted. -/
def Expr.parse (room : Nat) (limit : Int) (s : TokenSequence) : Except Fault Expr :=
  ((Parser.ofSequence s limit).readWhole (room - 1)).1

end Calculator
