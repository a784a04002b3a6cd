import Calculator.Evaluation
import Calculator.Proofs.Expr.Covering
import Calculator.Proofs.Program.Postorder

/-!
# Positions carry no meaning

Positions are handed on from tokens to trees, programs and faults, and never looked at. So moving
every position of the input by any function moves the positions of the outcome by the same function and
changes nothing else. Each stage gets one such law; the law of the parser goes through its states.

Moving all positions to one place forgets them: the value of a sequence of tokens, and the cause of its
fault, depend on the kinds and values of the tokens alone.
-/

set_option autoImplicit false

namespace Calculator

variable (f : Position → Position)

/-! ## Moving the positions of the data -/

/-- A token at the moved position. -/
def Token.relocate (t : Token) : Token := { t with pos := f t.pos }

/-- A sequence whose tokens and end mark are moved. -/
def TokenSequence.relocate (s : TokenSequence) : TokenSequence :=
  ⟨s.body.map (Token.relocate f), f s.finish⟩

/-- A tree with the positions of all its nodes moved. -/
def Expr.relocate : Expr → Expr
  | .number value pos => .number value (f pos)
  | .empty pos => .empty (f pos)
  | .unary op operand pos => .unary op operand.relocate (f pos)
  | .binary op left right pos => .binary op left.relocate right.relocate (f pos)
  | .foreign label payload pos => .foreign label payload (pos.map f)

/-- A fault with its position moved, if it has one. -/
def Fault.relocate (fault : Fault) : Fault := { fault with pos := fault.pos.map f }

/-- An instruction with its position moved, if it has one. -/
def Instr.relocate (i : Instr) : Instr := { i with pos := i.pos.map f }

/-- An outcome with the positions of its fault moved, and its result mapped. -/
def Outcome.relocate {α β : Type} (g : α → β) (x : Except Fault α) : Except Fault β :=
  (x.map g).mapError (Fault.relocate f)

/-- A result is moved as its kind asks for. -/
@[simp] theorem Outcome.relocate_ok {α β : Type} (g : α → β) (a : α) :
    relocate f g (.ok a) = .ok (g a) := rfl

/-- A fault is moved where there is no result. -/
@[simp] theorem Outcome.relocate_error {α β : Type} (g : α → β) (fault : Fault) :
    relocate f g (.error fault) = .error (fault.relocate f) := rfl

/-- Two stages in turn move the positions if each of them does. -/
theorem Outcome.relocate_bind {α β γ δ : Type} {g : α → γ} {h : β → δ} {k : α → Except Fault β}
    {k' : γ → Except Fault δ} (hk : ∀ a, k' (g a) = relocate f h (k a)) (x : Except Fault α) :
    (relocate f g x).bind k' = relocate f h (x.bind k) := by
  cases x with
  | ok a => exact hk a
  | error fault => rfl

/-! ## Parsing -/

/-- An operation that awaits its right operand, with its positions moved. -/
def Pending.relocate (p : Pending) : Pending := ⟨p.left.relocate f, p.op, f p.pos⟩

/-- A level with the positions of all that is pending on it moved. -/
def Level.relocate (level : Level) : Level :=
  ⟨level.sum.map (Pending.relocate f), level.product.map (Pending.relocate f),
    level.signs.map fun sign => (sign.1, f sign.2)⟩

/-- A state of the parser with all positions in it moved. -/
def ParseState.relocate : ParseState → ParseState
  | .group => .group
  | .operand level outer => .operand (level.relocate f) (outer.map (Level.relocate f))
  | .opened pos level outer =>
    .opened (f pos) (level.relocate f) (outer.map (Level.relocate f))
  | .operator sum term outer =>
    .operator (sum.map (Pending.relocate f)) (term.relocate f) (outer.map (Level.relocate f))

/-- Where parsing stops, with all positions moved. -/
def ParseStop.relocate (stop : ParseStop (Option (Except Fault Expr))) :
    ParseStop (Option (Except Fault Expr)) :=
  ⟨stop.outcome.map (Outcome.relocate f (Expr.relocate f)), stop.ahead.map (Token.relocate f),
    stop.depth⟩

/-- Moving a token does not change its kind. -/
@[simp] theorem Token.kind_relocate (t : Token) : (t.relocate f).kind = t.kind := rfl

/-- A moved token stands at the moved position. -/
@[simp] theorem Token.pos_relocate (t : Token) : (t.relocate f).pos = f t.pos := rfl

/-- A moved token is refused at the moved position. -/
theorem Token.unexpected_relocate (t : Token) (expected : Option String) :
    (t.relocate f).unexpected expected = (t.unexpected expected).relocate f := by
  simp only [unexpected, kind_relocate, pos_relocate]
  split <;> rfl

/-- Moving positions commutes with completing an operation. -/
theorem Pending.join_relocate (pending : Option Pending) (right : Expr) :
    join (pending.map (relocate f)) (right.relocate f) = (join pending right).relocate f := by
  cases pending <;> rfl

/-- Moving positions commutes with completing a term. -/
theorem Level.term_relocate (level : Level) (operand : Expr) :
    (level.relocate f).term (operand.relocate f) = (level.term operand).relocate f := by
  have hsigns : ∀ (signs : List (Operator × Position)) (e : Expr),
      (signs.map fun sign => (sign.1, f sign.2)).foldl
          (fun e sign => Expr.unary sign.1 e sign.2) (e.relocate f) =
        (signs.foldl (fun e sign => Expr.unary sign.1 e sign.2) e).relocate f := by
    intro signs
    induction signs with
    | nil => intro e; rfl
    | cons sign signs ih => intro e; exact ih (.unary sign.1 e sign.2)
  simp only [term, relocate]
  rw [hsigns, Pending.join_relocate]

/-- Where signs stand has no part in the calls of their factor. -/
theorem Level.factorCalls_relocate (level : Level) (term : Nat) :
    (level.relocate f).factorCalls term = level.factorCalls term := by
  simp [factorCalls, relocate]

namespace ParseState

/-- Moving positions commutes with reading a number. -/
theorem numberOperand_relocate (t : Token) :
    numberOperand (t.relocate f) = (numberOperand t).relocate f := by
  obtain ⟨kind, pos, value⟩ := t
  cases value <;> rfl

/-- Moving positions commutes with reading an operand. -/
theorem afterOperand_relocate (level : Level) (e : Expr) (outer : List Level) :
    afterOperand (level.relocate f) (e.relocate f) (outer.map (Level.relocate f)) =
      (afterOperand level e outer).relocate f := by
  simp only [afterOperand, relocate, Level.term_relocate]
  rfl

/-- Moving positions commutes with reading a token where an operand is awaited. -/
theorem operandNext?_relocate (level : Level) (outer : List Level) (t : Token) :
    operandNext? (level.relocate f) (outer.map (Level.relocate f)) (t.relocate f) =
      (operandNext? level outer t).map (relocate f) := by
  simp only [operandNext?, Token.kind_relocate, numberOperand_relocate, afterOperand_relocate]
  split <;> rfl

/-- Moving positions commutes with reading a token after a term. -/
theorem operatorNext?_relocate (sum : Option Pending) (term : Expr) (outer : List Level)
    (t : Token) :
    operatorNext? (sum.map (Pending.relocate f)) (term.relocate f) (outer.map (Level.relocate f))
        (t.relocate f) = (operatorNext? sum term outer t).map (relocate f) := by
  simp only [operatorNext?, Token.kind_relocate, Pending.join_relocate]
  cases t.kind with
  | rparen =>
      cases outer with
      | nil => rfl
      | cons level rest =>
          simp only [List.map_cons, Option.map_some, afterOperand_relocate]
  | _ => rfl

/-- Positions do not matter for whether a group is too deep. -/
theorem tooDeep_relocate (scope : Scope) (outer : List Level) :
    tooDeep scope (outer.map (Level.relocate f)) = tooDeep scope outer := by
  simp [tooDeep]

/-- One step of the parser moves the positions along. -/
theorem next?_relocate (scope : Scope) (state : ParseState) (t : Token) :
    (state.relocate f).next? scope (t.relocate f) = (state.next? scope t).map (relocate f) := by
  cases state with
  | group =>
      show (if t.kind = .lparen then some (.opened (f t.pos) .fresh []) else none) =
        Option.map (relocate f) (if t.kind = .lparen then some (.opened t.pos .fresh []) else none)
      split <;> rfl
  | operand level outer => exact operandNext?_relocate f level outer t
  | opened pos level outer =>
      simp only [relocate, next?, Token.kind_relocate, tooDeep_relocate]
      split
      · exact congrArg some (afterOperand_relocate f level (.empty pos) outer)
      · split
        · rfl
        · exact operandNext?_relocate f .fresh (level :: outer) t
  | operator sum term outer =>
      simp only [relocate, next?, Token.kind_relocate, List.isEmpty_map]
      split
      · rfl
      · exact operatorNext?_relocate f sum term outer t

/-- Moving positions commutes with the outcome at a token. -/
theorem outcome_relocate (scope : Scope) (state : ParseState) (t : Token) :
    (state.relocate f).outcome scope (t.relocate f) =
      Outcome.relocate f (Expr.relocate f) (state.outcome scope t) := by
  cases state with
  | group | operand level outer =>
      exact congrArg Except.error (Token.unexpected_relocate f t _)
  | opened pos level outer =>
      simp only [relocate, outcome, tooDeep_relocate]
      split
      · rfl
      · exact congrArg Except.error (Token.unexpected_relocate f t _)
  | operator sum term outer =>
      simp only [relocate, outcome, List.isEmpty_map]
      split
      · exact congrArg Except.ok (Pending.join_relocate f sum term)
      · exact congrArg Except.error (Token.unexpected_relocate f t _)

/-- Positions do not matter for how many groups count as open. -/
theorem openGroups_relocate (state : ParseState) :
    (state.relocate f).openGroups = state.openGroups := by
  cases state <;> simp [relocate, openGroups]

/-- Where a state stands has no part in how many groups it counts as open. -/
theorem enteredGroups_relocate (state : ParseState) :
    (state.relocate f).enteredGroups = state.enteredGroups := by
  cases state <;> simp [relocate, enteredGroups]

/-- Where a token stands has no part in its calls. -/
theorem callHeight_relocate (scope : Scope) (groups : List Nat) (state : ParseState) (t : Token) :
    (state.relocate f).callHeight scope groups (t.relocate f) = state.callHeight scope groups t := by
  cases state with
  | group => rfl
  | operand level outer =>
      simp only [relocate, callHeight, operandHeight, Token.kind_relocate, Level.factorCalls_relocate]
  | opened pos level outer =>
      simp only [relocate, callHeight, operandHeight, Token.kind_relocate, tooDeep_relocate]
  | operator sum term outer =>
      simp only [relocate, callHeight, Token.kind_relocate, List.isEmpty_map]
      rfl

/-- Where a token stands has no part in which groups are open after it. -/
theorem groupsAfter_relocate (scope : Scope) (groups : List Nat) (state : ParseState) (t : Token) :
    (state.relocate f).groupsAfter scope groups (t.relocate f) = state.groupsAfter scope groups t := by
  have hcalls : ∀ term, (state.relocate f).groupCalls term = state.groupCalls term := by
    intro term
    cases state <;> simp only [relocate, groupCalls, Level.factorCalls_relocate]
  simp only [groupsAfter, Token.kind_relocate, hcalls]

/-- One step of the parser, with little room or much, moves the positions along. -/
theorem step?_relocate (room : Nat) (scope : Scope) (groups : List Nat) (state : ParseState)
    (t : Token) :
    (state.relocate f).step? room scope groups (t.relocate f) =
      (state.step? room scope groups t).map (relocate f) := by
  simp only [step?, callHeight_relocate, next?_relocate]
  split <;> rfl

/-- Stopping moves the positions along. -/
theorem stop_relocate (room : Nat) (scope : Scope) (groups : List Nat) (state : ParseState)
    (t : Token) (ahead : List Token) :
    (state.relocate f).stop room scope groups (t.relocate f) (ahead.map (Token.relocate f)) =
      (state.stop room scope groups t ahead).relocate f := by
  simp only [stop, callHeight_relocate, outcome_relocate, openGroups_relocate, enteredGroups_relocate]
  split <;> rfl

/-- A run of the parser moves the positions along. -/
theorem run_relocate (room : Nat) (scope : Scope) (finish : Position) (groups : List Nat)
    (state : ParseState) (tokens : List Token) :
    (state.relocate f).run room scope (f finish) groups (tokens.map (Token.relocate f)) =
      (state.run room scope finish groups tokens).relocate f := by
  induction tokens generalizing state groups with
  | nil => exact stop_relocate f room scope groups state ⟨.eof, finish, none⟩ []
  | cons t tokens ih =>
      have hstep := step?_relocate f room scope groups state t
      rw [List.map_cons, run, run]
      cases h : state.step? room scope groups t with
      | none =>
          rw [h, Option.map_none] at hstep
          rw [hstep]
          exact stop_relocate f room scope groups state t (t :: tokens)
      | some next =>
          rw [h, Option.map_some] at hstep
          rw [hstep, groupsAfter_relocate]
          exact ih _ next

end ParseState

/-- What a whole text comes to moves along with where parsing stopped. -/
theorem Parser.conclude_relocate (s : TokenSequence) (limit : Int)
    (stop : ParseStop (Option (Except Fault Expr))) :
    ((ofSequence (s.relocate f) limit).resume (stop.relocate f)).conclude (stop.relocate f).outcome =
      Outcome.relocate f (Expr.relocate f)
        (((ofSequence s limit).resume stop).conclude stop.outcome) := by
  have hcurrent : ((ofSequence (s.relocate f) limit).resume (stop.relocate f)).current =
      (((ofSequence s limit).resume stop).current).relocate f := by
    simp only [current, resume, ParseStop.relocate, List.head?_map]
    cases stop.ahead.head? <;> rfl
  obtain ⟨outcome, ahead, depth⟩ := stop
  cases outcome with
  | none =>
      simp only [ParseStop.relocate, Option.map_none, conclude, overflow] at hcurrent ⊢
      rw [hcurrent]
      rfl
  | some outcome =>
      simp only [ParseStop.relocate, Option.map_some, conclude] at hcurrent ⊢
      apply Outcome.relocate_bind
      intro e
      rw [close, close, hcurrent, Token.kind_relocate]
      split <;> rfl

/-- Parsing moves the positions along, whatever room there is for calls. -/
theorem Expr.parse_relocate (room : Nat) (limit : Int) (s : TokenSequence) :
    Expr.parse room limit (s.relocate f) =
      Outcome.relocate f (Expr.relocate f) (Expr.parse room limit s) := by
  have hrun : Expr.parseRunIn room limit (s.relocate f) = (Expr.parseRunIn room limit s).relocate f :=
    ParseState.run_relocate f _ _ s.finish [] (.operand .fresh []) s.body
  rw [Expr.parse_eq_conclude, Expr.parse_eq_conclude, hrun, Parser.conclude_relocate]

/-- A compilation with the positions of its instructions and of its fault moved. -/
def Compilation.relocate (c : Compilation) : Compilation :=
  ⟨c.code.map (Instr.relocate f), c.fault.map (Fault.relocate f)⟩

/-- Moving positions commutes with compiling one thing after another. -/
theorem Compilation.andThen_relocate (first second : Compilation) :
    (first.andThen second).relocate f = (first.relocate f).andThen (second.relocate f) := by
  obtain ⟨code, fault⟩ := first
  cases fault with
  | none => simp [andThen, relocate]
  | some fault => rfl

/-- Moving positions commutes with compiling a tree. -/
theorem Expr.postorder_relocate (e : Expr) :
    (e.relocate f).postorder = e.postorder.relocate f := by
  induction e with
  | number value pos | empty pos | foreign label payload pos => rfl
  | unary op operand pos ih =>
      cases op with
      | plus => exact ih
      | minus =>
          simp only [Expr.relocate, Expr.postorder, Compilation.andThen_relocate, ih]
          rfl
      | _ => rfl
  | binary op left right pos ihl ihr =>
      simp only [Expr.relocate, Expr.postorder]
      split
      · rw [Compilation.andThen_relocate, Compilation.andThen_relocate, ihl, ihr]
        rfl
      · rfl

/-- Compiling moves the positions along. -/
theorem Expr.compile_relocate (e : Expr) :
    (e.relocate f).compile = Outcome.relocate f (List.map (Instr.relocate f)) e.compile := by
  rw [Expr.compile, Expr.compile, Expr.compilation_eq_postorder, Expr.compilation_eq_postorder,
    Expr.postorder_relocate]
  generalize e.postorder = c
  obtain ⟨code, fault⟩ := c
  cases fault <;> rfl

/-- Moving positions commutes with executing an instruction. -/
theorem Instr.step_relocate (i : Instr) (stack : List Float) :
    (i.relocate f).step stack = Outcome.relocate f id (i.step stack) := by
  obtain ⟨opcode, pos⟩ := i
  cases opcode with
  | push value | foreign label description => rfl
  | neg => cases stack <;> rfl
  | add | sub | mul =>
      match stack with
      | [] | [_] | right :: left :: rest => rfl
  | div =>
      match stack with
      | [] | [_] => rfl
      | right :: left :: rest =>
          simp only [Instr.step, Instr.combine, Instr.divide, Instr.relocate]
          split <;> rfl

/-- Moving positions commutes with running a program. -/
theorem runProgram_relocate (stack : List Float) (code : List Instr) :
    runProgram stack (code.map (Instr.relocate f)) =
      Outcome.relocate f id (runProgram stack code) := by
  induction code generalizing stack with
  | nil => rfl
  | cons i code ih =>
      simp only [List.map_cons, runProgram, Instr.step_relocate]
      cases i.step stack with
      | ok next => exact ih next
      | error fault => rfl

/-- Executing moves the positions along. -/
theorem execute_relocate (code : List Instr) :
    execute (code.map (Instr.relocate f)) = Outcome.relocate f id (execute code) := by
  rw [execute, execute, runProgram_relocate]
  apply Outcome.relocate_bind
  intro stack
  match stack with
  | [] | [_] | _ :: _ :: _ => rfl

/-! ## Forgetting the positions -/

/-- What parsing, compiling and executing a sequence of tokens comes to. -/
def TokenSequence.value (room : Nat) (limit : Int) (s : TokenSequence) : Except Fault Float :=
  (Expr.parse room limit s).bind fun e => e.compile.bind execute

/-- The value of a sequence moves the positions along. -/
theorem TokenSequence.value_relocate (room : Nat) (limit : Int) (s : TokenSequence) :
    (s.relocate f).value room limit = Outcome.relocate f id (s.value room limit) := by
  rw [value, Expr.parse_relocate]
  apply Outcome.relocate_bind
  intro e
  rw [Expr.compile_relocate]
  apply Outcome.relocate_bind
  intro code
  exact execute_relocate f code

/-- What a token is apart from its position. -/
def Token.word (t : Token) : TokenKind × Option Float := (t.kind, t.value)

/-- The kinds and values of the tokens of a sequence, without their positions. -/
def TokenSequence.words (s : TokenSequence) : List (TokenKind × Option Float) :=
  s.body.map Token.word

/-- The value of a sequence, or the cause of its fault. -/
def TokenSequence.result (room : Nat) (limit : Int) (s : TokenSequence) : Except Cause Float :=
  (s.value room limit).mapError Fault.cause

/-- The result of a sequence does not depend on where its tokens stand. -/
theorem TokenSequence.result_relocate (room : Nat) (limit : Int) (s : TokenSequence) :
    (s.relocate f).result room limit = s.result room limit := by
  rw [result, result, value_relocate]
  cases s.value room limit <;> rfl

omit f in
/-- The value of a sequence, and the cause of its fault, depend on its words alone. -/
theorem TokenSequence.result_eq_of_words_eq (room : Nat) (limit : Int) {s s' : TokenSequence}
    (h : s.words = s'.words) : s.result room limit = s'.result room limit := by
  have hforget : ∀ s : TokenSequence, s.relocate (fun _ => .start) =
      ⟨s.words.map fun w => ⟨w.1, .start, w.2⟩, .start⟩ := by
    intro s
    simp only [relocate, words, List.map_map]
    rfl
  rw [← result_relocate (fun _ => .start) room limit s, hforget, h, ← hforget, result_relocate]

end Calculator
