import Calculator.Number.Literal
import Calculator.Position
import Calculator.Text.Pad

/-!
# Expressions

An expression is a tree of numbers, empty groups, signs and operations, each with the position of
the token that it comes from.
-/

set_option autoImplicit false

namespace Calculator

/-- The operators of the language. A tree from elsewhere may hold other symbols. -/
inductive Operator where
  | plus
  | minus
  | times
  | over
  | other (symbol : String)
deriving DecidableEq, Repr

namespace Operator

/-- The symbol of an operator. -/
def symbol : Operator → String
  | .plus => "+"
  | .minus => "-"
  | .times => "*"
  | .over => "/"
  | .other symbol => symbol

/-- The operator that has a symbol. -/
def ofSymbol (symbol : String) : Operator :=
  match symbol with
  | "+" => .plus
  | "-" => .minus
  | "*" => .times
  | "/" => .over
  | symbol => .other symbol

/-- The operator that a symbol stands for has that symbol. -/
theorem symbol_ofSymbol (symbol : String) : (ofSymbol symbol).symbol = symbol := by
  unfold ofSymbol
  split <;> rfl

end Operator

/-- An expression. -/
inductive Expr where
  /-- A number as it was written. -/
  | number (value : Float) (pos : Position)
  /-- A group with nothing in it, which counts as zero. -/
  | empty (pos : Position)
  /-- A sign before an operand. -/
  | unary (op : Operator) (operand : Expr) (pos : Position)
  /-- An operation on two operands. -/
  | binary (op : Operator) (left right : Expr) (pos : Position)
  /-- A node that is no expression of the language, known by its label and the text of what it holds,
  if anything. -/
  | foreign (label : String) (payload : Option String) (pos : Option Position)
deriving DecidableEq

namespace Expr

/-- The label of the kind of node at the root. -/
def label : Expr → String
  | .number _ _ => "Number"
  | .empty _ => "Empty"
  | .unary _ _ _ => "UnaryOp"
  | .binary _ _ _ _ => "BinaryOp"
  | .foreign label _ _ => label

/-- The position of the root. -/
def pos? : Expr → Option Position
  | .number _ pos | .empty pos | .unary _ _ pos | .binary _ _ _ pos => some pos
  | .foreign _ _ pos => pos

/-- The operands of the root, from left to right. -/
def operands : Expr → List Expr
  | .unary _ operand _ => [operand]
  | .binary _ left right _ => [left, right]
  | _ => []

/-- How many nodes a tree has. -/
def size : Expr → Nat
  | .unary _ operand _ => operand.size + 1
  | .binary _ left right _ => left.size + right.size + 1
  | _ => 1

/-- How many nodes the trees of a work list have together. -/
def totalSize : List (Nat × Expr) → Nat
  | [] => 0
  | (_, e) :: rest => e.size + totalSize rest

/-- The nodes of two work lists add up. -/
theorem totalSize_append (first second : List (Nat × Expr)) :
    totalSize (first ++ second) = totalSize first + totalSize second := by
  induction first with
  | nil => simp [totalSize]
  | cons entry first ih => simp [totalSize, ih, Nat.add_assoc]

/-- A tree has one node more than its operands together. -/
theorem totalSize_operands (depth : Nat) (e : Expr) :
    totalSize (e.operands.map (depth, ·)) + 1 = e.size := by
  cases e <;> simp [operands, totalSize, size]

/-- Visits the trees of a work list, each with its depth: the first one is taken off, and its operands
are put in its place. `visited` are the nodes so far, the last one first. -/
def visitAll (visited work : List (Nat × Expr)) : List (Nat × Expr) :=
  match work with
  | [] => visited.reverse
  | (depth, e) :: rest => visitAll ((depth, e) :: visited) (e.operands.map (depth + 1, ·) ++ rest)
termination_by totalSize work
decreasing_by
  have := totalSize_operands (depth + 1) e
  simp only [totalSize, totalSize_append]
  omega

/-- The nodes of a tree with their depths, in the order in which they are visited. -/
def preorder (e : Expr) : List (Nat × Expr) := visitAll [] [(0, e)]

/-- What the root holds beside its operands: the number, or the symbol of the operator. -/
def payload? : Expr → Option String
  | .number value _ => some (Number.literal value)
  | .unary op _ _ | .binary op _ _ _ => some op.symbol
  | .empty _ => none
  | .foreign _ payload _ => payload

/-- The line of the root in an outline, before indentation. -/
def heading (e : Expr) : String :=
  match e.payload? with
  | none => e.label
  | some payload => e.label ++ " " ++ payload

/-- Two spaces for each level; a negative level has none. -/
def margin (level : Int) : String := Text.spaces (2 * level.toNat)

/-- The lines of the outline of a tree, one per node, each indented by its depth. -/
def outlineLines (indent : Int) (e : Expr) : List String :=
  e.preorder.map fun node => margin (indent + node.1) ++ node.2.heading

/-- The outline of a tree. -/
def outline (indent : Int) (e : Expr) : String := "\n".intercalate (e.outlineLines indent)

end Expr

end Calculator
