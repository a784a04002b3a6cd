import Calculator.Expr

/-!
# Nodes in preorder

A tree is visited with a work list: the tree in front is taken off, and its operands are put in its place. So
its nodes come out before those of the trees behind it, each node before its operands and the left operand
before the right (`visitAll_eq`).
-/

set_option autoImplicit false

namespace Calculator

namespace Expr

/-- The nodes of a tree with their depths: the root, then those of the left operand, then those of the right. -/
def preorderFrom (depth : Nat) (e : Expr) : List (Nat × Expr) :=
  match e with
  | .unary _ operand _ => (depth, e) :: operand.preorderFrom (depth + 1)
  | .binary _ left right _ => (depth, e) :: (left.preorderFrom (depth + 1) ++ right.preorderFrom (depth + 1))
  | _ => [(depth, e)]

/-- The root comes first, and then the nodes of the operands in their order. -/
theorem preorderFrom_eq (depth : Nat) (e : Expr) :
    e.preorderFrom depth =
      (depth, e) :: (e.operands.map (depth + 1, ·)).flatMap fun entry => entry.2.preorderFrom entry.1 := by
  cases e <;> simp [preorderFrom, operands]

/-- A work list is visited tree by tree. -/
theorem visitAll_eq (visited work : List (Nat × Expr)) :
    visitAll visited work =
      visited.reverse ++ work.flatMap fun entry => entry.2.preorderFrom entry.1 := by
  induction visited, work using visitAll.induct with
  | case1 visited => simp [visitAll]
  | case2 visited depth e rest ih =>
      rw [visitAll, ih, List.flatMap_append, List.flatMap_cons, preorderFrom_eq depth e]
      simp

/-- A tree is visited in preorder. -/
theorem preorder_eq (e : Expr) : e.preorder = e.preorderFrom 0 := by
  rw [preorder, visitAll_eq]
  simp

end Expr

end Calculator
