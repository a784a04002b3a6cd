import Calculator.Event

/-!
# Emitting a stage

A single expression is shown as its value, or as what an earlier stage makes of it: its tokens, its
tree, or its program.
-/

set_option autoImplicit false

namespace Calculator

/-- What is shown of an expression. -/
inductive Emit where
  | value
  | tokens
  | tree
  | program
deriving DecidableEq, Repr

namespace Emit

/-- The words for the choices, in the order in which they are offered. -/
def names : List (String × Emit) :=
  [("value", .value), ("tokens", .tokens), ("ast", .tree), ("bytecode", .program)]

/-- The choice that a word stands for. -/
def ofName? (name : String) : Option Emit := names.lookup name

/-- The events of a phase that may fail, followed by those of the rest. -/
def andThen {α : Type} (text : String) (paint : String → String) (phase : Except Fault α)
    (rest : α → Nat × List Event) : Nat × List Event :=
  match phase with
  | .ok a => rest a
  | .error fault => (1, [.err ((Report.mk fault text 1).render paint ++ "\n")])

/-- A log entry in front of the events of the rest. -/
def logged (entry : LogEntry) (rest : Nat × List Event) : Nat × List Event :=
  (rest.1, .log entry :: rest.2)

/-- The events of showing the value. -/
def valueEvents (room : Nat) (paint : String → String) (text : String) : Nat × List Event :=
  let log := Event.ofEvaluation (room - 1) text
  let result := evaluate (room - 1) text 1
  match result.outcome with
  | .ok _ => (0, log ++ [.out (result.text paint ++ "\n")])
  | .error _ => (1, log ++ [.err (result.text paint ++ "\n")])

/-- The exit status and the events of showing an expression. -/
def events (room : Nat) (paint : String → String) (mode : Emit) (text : String) :
    Nat × List Event :=
  match mode with
  | .value => valueEvents room paint text
  | .tokens =>
    andThen text paint (Token.scan text) fun tokens =>
      logged (.tokenized tokens) (0, [.out (Token.table tokens.toList)])
  | .tree =>
    andThen text paint (Token.scan text) fun tokens =>
      logged (.tokenized tokens) <|
        andThen text paint (Expr.parse (room - 1) Parser.defaultLimit tokens) fun e =>
          logged (.parsed e) (0, [.out (e.outline 0 ++ "\n")])
  | .program =>
    andThen text paint (Token.scan text) fun tokens =>
      logged (.tokenized tokens) <|
        andThen text paint (Expr.parse (room - 1) Parser.defaultLimit tokens) fun e =>
          logged (.parsed e) <|
            andThen text paint e.compile fun code =>
              logged (.compiled code) (0, [.out (listing code ++ "\n")])

end Emit

end Calculator
