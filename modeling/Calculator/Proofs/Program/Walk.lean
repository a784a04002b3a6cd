import Calculator.Program.Compiler
import Calculator.Proofs.Expr.Preorder
import Calculator.Proofs.Program.Meaning

/-!
# Where a compilation stops

The walk over a tree reaches each node before its operands, and emits the instruction of a node after those
of its operands. Compiling a tree is that walk, cut off where it reaches a node that has a fault of its own:
the fault is that of the first such node, and what has been emitted by then is what is kept
(`Expr.ofWalk_walk`).

A compiler starts over with every expression, so what it was used for before leaves no trace.
-/

set_option autoImplicit false

namespace Calculator

namespace Expr

/-- The fault of a node itself, whatever its operands are: there are two signs and four operations, and a
foreign node has no instruction. -/
def ownFault? : Expr → Option Fault
  | .number _ _ | .empty _ => none
  | .unary op _ pos => if op ∈ Operator.signs then none else some (op.unsupported pos)
  | .binary op _ _ pos => if op ∈ Operator.operations then none else some (op.unsupported pos)
  | .foreign label _ pos => some ⟨.unsupportedOperator label, pos⟩

/-- The instruction of a node itself; a sign that changes nothing has none. -/
def ownInstr? : Expr → Option Instr
  | .number value pos => some ⟨.push value, some pos⟩
  | .empty pos => some ⟨.push 0, some pos⟩
  | .unary op _ pos => if op = .minus then some ⟨.neg, some pos⟩ else none
  | .binary op _ _ pos => op.binaryOpcode?.map (⟨·, some pos⟩)
  | .foreign _ _ _ => none

/-- The fault of a node stands where the node stands, if that is known. -/
theorem pos_of_ownFault? {e : Expr} {fault : Fault} (h : e.ownFault? = some fault) :
    fault.pos = e.pos? := by
  cases e with
  | number | empty => cases h
  | unary op operand pos =>
      simp only [ownFault?] at h
      split at h <;> cases h
      rfl
  | binary op left right pos =>
      simp only [ownFault?] at h
      split at h <;> cases h
      rfl
  | foreign label payload pos =>
      cases h
      rfl

end Expr

/-- What happens on the walk over a tree. -/
inductive WalkStep where
  /-- A node is reached, before its operands. -/
  | reach (node : Expr)
  /-- The instruction of a node is emitted, after those of its operands. -/
  | emit (instr : Instr)

namespace WalkStep

/-- The nodes that are reached, in their order. -/
def reached (steps : List WalkStep) : List Expr :=
  steps.filterMap fun
    | .reach node => some node
    | .emit _ => none

/-- The instructions that are emitted, in their order. -/
def emitted (steps : List WalkStep) : List Instr :=
  steps.filterMap fun
    | .reach _ => none
    | .emit instr => some instr

/-- A walk without steps reaches no node. -/
@[simp] theorem reached_nil : reached [] = [] := rfl

/-- A step to a node reaches it. -/
@[simp] theorem reached_reach (node : Expr) (steps : List WalkStep) :
    reached (.reach node :: steps) = node :: reached steps := rfl

/-- Emitting reaches no node. -/
@[simp] theorem reached_emit (instr : Instr) (steps : List WalkStep) :
    reached (.emit instr :: steps) = reached steps := rfl

/-- Two walks reach nodes one after the other. -/
@[simp] theorem reached_append (first second : List WalkStep) :
    reached (first ++ second) = reached first ++ reached second := List.filterMap_append ..

/-- A walk without steps emits nothing. -/
@[simp] theorem emitted_nil : emitted [] = [] := rfl

/-- A step to a node emits nothing. -/
@[simp] theorem emitted_reach (node : Expr) (steps : List WalkStep) :
    emitted (.reach node :: steps) = emitted steps := rfl

/-- Emitting an instruction emits it. -/
@[simp] theorem emitted_emit (instr : Instr) (steps : List WalkStep) :
    emitted (.emit instr :: steps) = instr :: emitted steps := rfl

end WalkStep

/-- The step in which a node emits its own instruction, if it has one. -/
def Expr.ownStep (e : Expr) : List WalkStep := (e.ownInstr?.map .emit).toList

/-- The walk over a tree: a node is reached, then come the walks over its operands, the left one first, and
then its instruction. -/
def Expr.walk (e : Expr) : List WalkStep :=
  match e with
  | .unary _ operand _ => .reach e :: (operand.walk ++ e.ownStep)
  | .binary _ left right _ => .reach e :: (left.walk ++ (right.walk ++ e.ownStep))
  | _ => .reach e :: e.ownStep

/-- The instruction of a node comes without reaching another one. -/
@[simp] theorem Expr.reached_ownStep (e : Expr) : WalkStep.reached e.ownStep = [] := by
  unfold ownStep
  cases e.ownInstr? <;> rfl

/-- The walk reaches the nodes of a tree in preorder. -/
theorem Expr.reached_walk (e : Expr) : WalkStep.reached e.walk = e.preorder.map Prod.snd := by
  have hreached : ∀ (e : Expr) (depth : Nat),
      WalkStep.reached e.walk = (e.preorderFrom depth).map Prod.snd := by
    intro e
    induction e with
    | number | empty | foreign => simp [preorderFrom, walk]
    | unary op operand pos ih => simp [preorderFrom, walk, ← ih]
    | binary op left right pos ihl ihr => simp [preorderFrom, walk, ← ihl, ← ihr]
  rw [preorder_eq]
  exact hreached e 0

/-! ## Cutting the walk off -/

namespace Compilation

/-- The compilation that a walk makes: it stops where a node is reached that has a fault of its own. -/
def ofWalk : List WalkStep → Compilation
  | [] => ⟨[], none⟩
  | .emit instr :: rest => ⟨instr :: (ofWalk rest).code, (ofWalk rest).fault⟩
  | .reach node :: rest =>
    match node.ownFault? with
    | none => ofWalk rest
    | some fault => .stop fault

/-- A walk goes on behind a node without a fault of its own. -/
theorem ofWalk_reach_of_none {node : Expr} (h : node.ownFault? = none) (rest : List WalkStep) :
    ofWalk (.reach node :: rest) = ofWalk rest := by
  simp [ofWalk, h]

/-- A walk stops at a node with a fault of its own. -/
theorem ofWalk_reach_of_some {node : Expr} {fault : Fault} (h : node.ownFault? = some fault)
    (rest : List WalkStep) : ofWalk (.reach node :: rest) = .stop fault := by
  simp [ofWalk, h]

/-- A walk in two parts is one compilation after the other. -/
theorem ofWalk_append (first second : List WalkStep) :
    ofWalk (first ++ second) = (ofWalk first).andThen (ofWalk second) := by
  induction first with
  | nil => simp [ofWalk, andThen]
  | cons step first ih =>
      cases step with
      | emit instr =>
          simp only [List.cons_append, ofWalk, ih]
          cases hfault : (ofWalk first).fault <;> simp [andThen, hfault]
      | reach node =>
          cases hnode : node.ownFault? with
          | none => rw [List.cons_append, ofWalk_reach_of_none hnode, ofWalk_reach_of_none hnode, ih]
          | some fault =>
              rw [List.cons_append, ofWalk_reach_of_some hnode, ofWalk_reach_of_some hnode]
              rfl

/-- A walk reaches no fault and emits everything, or stops at the first node that has one and keeps what was
emitted before. -/
theorem ofWalk_cases (steps : List WalkStep) :
    ((ofWalk steps).fault = none ∧ (ofWalk steps).code = WalkStep.emitted steps ∧
      ∀ node ∈ WalkStep.reached steps, node.ownFault? = none) ∨
    ∃ before node after fault, steps = before ++ .reach node :: after ∧
      (∀ earlier ∈ WalkStep.reached before, earlier.ownFault? = none) ∧
      node.ownFault? = some fault ∧ (ofWalk steps).fault = some fault ∧
      (ofWalk steps).code = WalkStep.emitted before := by
  induction steps with
  | nil => exact .inl ⟨rfl, rfl, by simp⟩
  | cons step steps ih =>
      cases step with
      | emit instr =>
          rcases ih with ⟨hfault, hcode, hnodes⟩ |
            ⟨before, node, after, fault, rfl, hearlier, hnode, hfault, hcode⟩
          · exact .inl ⟨hfault, by simp [ofWalk, hcode], hnodes⟩
          · exact .inr ⟨.emit instr :: before, node, after, fault, rfl, hearlier, hnode, hfault,
              by simp [ofWalk, hcode]⟩
      | reach node =>
          cases hnode : node.ownFault? with
          | some fault =>
              rw [ofWalk_reach_of_some hnode]
              exact .inr ⟨[], node, steps, fault, rfl, by simp, hnode, rfl, rfl⟩
          | none =>
              rw [ofWalk_reach_of_none hnode]
              rcases ih with ⟨hfault, hcode, hnodes⟩ |
                ⟨before, later, after, fault, rfl, hearlier, hlater, hfault, hcode⟩
              · exact .inl ⟨hfault, hcode, List.forall_mem_cons.mpr ⟨hnode, hnodes⟩⟩
              · exact .inr ⟨.reach node :: before, later, after, fault, rfl,
                  List.forall_mem_cons.mpr ⟨hnode, hearlier⟩, hlater, hfault, hcode⟩

end Compilation

/-- Compiling a tree is the walk over it, up to the first node that has a fault of its own. -/
theorem Expr.ofWalk_walk (e : Expr) : Compilation.ofWalk e.walk = e.postorder := by
  induction e with
  | number | empty | foreign => rfl
  | unary op operand pos ih =>
      cases op with
      | plus =>
          have hown : (Expr.unary .plus operand pos).ownStep = [] := rfl
          rw [walk, Compilation.ofWalk_reach_of_none rfl, hown, List.append_nil, ih]
          rfl
      | minus =>
          rw [walk, Compilation.ofWalk_reach_of_none rfl, Compilation.ofWalk_append, ih]
          rfl
      | _ => rfl
  | binary op left right pos ihl ihr =>
      cases op with
      | other symbol => rfl
      | _ =>
          rw [walk, Compilation.ofWalk_reach_of_none rfl, Compilation.ofWalk_append,
            Compilation.ofWalk_append, ihl, ihr]
          rfl

/-! ## One expression after the other -/

namespace Compiler

/-- A compiler starts over with every expression. -/
theorem generate_eq (c : Compiler) (e : Expr) :
    c.generate e = (e.postorder.outcome, ⟨e.postorder.code⟩) := by
  have hextend : ({ c with code := [] } : Compiler).extend e = e.postorder :=
    e.compilation_eq_postorder
  rw [generate, hextend]

/-- Each expression is compiled by itself, whatever the compiler held. -/
theorem generateAll_eq (c : Compiler) (trees : List Expr) :
    c.generateAll trees = trees.map fun e => (e.postorder.outcome, e.postorder.code) := by
  induction trees generalizing c with
  | nil => rfl
  | cons e trees ih => rw [generateAll, generate_eq, List.map_cons, ih]

end Compiler

/-- Whatever a compiler was used for before, and whatever trees it is given, each of them is compiled as the
recursion over the tree compiles it. The recursion walks over the nodes in preorder. Either no node has a
fault of its own, and it emits the whole walk; or it stops with the fault of the first node that has one,
which stands where the node stands, and has emitted what the walk emits before it reaches that node. -/
theorem generateAll_walks_in_preorder (c : Compiler) (trees : List Expr) :
    c.generateAll trees = trees.map (fun e => (e.postorder.outcome, e.postorder.code)) ∧
    ∀ e : Expr, WalkStep.reached e.walk = e.preorder.map Prod.snd ∧
      ((e.postorder.fault = none ∧ e.postorder.code = WalkStep.emitted e.walk ∧
          ∀ node ∈ WalkStep.reached e.walk, node.ownFault? = none) ∨
        ∃ before node after fault, e.walk = before ++ .reach node :: after ∧
          (∀ earlier ∈ WalkStep.reached before, earlier.ownFault? = none) ∧
          node.ownFault? = some fault ∧ fault.pos = node.pos? ∧
          e.postorder.fault = some fault ∧ e.postorder.code = WalkStep.emitted before) := by
  refine ⟨Compiler.generateAll_eq c trees, ?_⟩
  intro e
  refine ⟨e.reached_walk, ?_⟩
  rw [← e.ofWalk_walk]
  rcases Compilation.ofWalk_cases e.walk with hwhole |
    ⟨before, node, after, fault, hwalk, hearlier, hnode, hfault, hcode⟩
  · exact .inl hwhole
  · exact .inr ⟨before, node, after, fault, hwalk, hearlier, hnode, Expr.pos_of_ownFault? hnode,
      hfault, hcode⟩

/-- A compiler that holds something is given `1 + !(2 ^ 3)` and then `-4`. The first tree is stopped at the
foreign sign, which is reached before the foreign operation in it, and the second one is compiled. -/
theorem generateAll_walks_in_preorder_foreign_sign :
    (Compiler.mk [⟨.neg, none⟩]).generateAll
        [.binary .plus (.number 1 ⟨1, 1⟩) (.unary (.other "!")
          (.binary (.other "^") (.number 2 ⟨1, 7⟩) (.number 3 ⟨1, 11⟩) ⟨1, 9⟩) ⟨1, 5⟩) ⟨1, 3⟩,
         .unary .minus (.number 4 ⟨2, 2⟩) ⟨2, 1⟩] =
      [(.error ⟨.unsupportedOperator "'!'", some ⟨1, 5⟩⟩, [⟨.push 1, some ⟨1, 1⟩⟩]),
       (.ok [⟨.push 4, some ⟨2, 2⟩⟩, ⟨.neg, some ⟨2, 1⟩⟩],
         [⟨.push 4, some ⟨2, 2⟩⟩, ⟨.neg, some ⟨2, 1⟩⟩])] := by
  rw [(generateAll_walks_in_preorder _ _).1]
  rfl

end Calculator
