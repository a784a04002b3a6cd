import Calculator.Proofs.Program.Balance
import Calculator.Proofs.Program.Meaning

/-!
# Programs read back as expressions

A program is read back by running it on a stack of trees: a push puts a number there, and an operation
joins the two topmost trees. Two things are always removed by compilation, a sign that changes nothing and
the difference between an empty group and the number zero. For expressions without either, reading back
undoes compilation (`rebuildTrees?_postorder`), and what has been read back compiles to the program
(`stackCode_of_rebuildTrees?`). So every program comes from at most one such expression.

Reading back succeeds wherever the operands suffice, and nowhere else: the programs that come from an
expression are the balanced ones.
-/

set_option autoImplicit false

namespace Calculator

/-- Whether the machine knows an instruction. -/
def Opcode.isKnown : Opcode → Bool
  | .foreign _ _ => false
  | _ => true

/-- The operation that an instruction carries out on two operands. -/
def Opcode.operation? : Opcode → Option Operator
  | .add => some .plus
  | .sub => some .minus
  | .mul => some .times
  | .div => some .over
  | .push _ | .neg | .foreign _ _ => none

/-- Reads back one instruction: the trees that the operands on the stack come from, the topmost first. -/
def Instr.rebuild? (i : Instr) (trees : List Expr) : Option (List Expr) :=
  i.pos.bind fun pos =>
    match i.opcode, trees with
    | .push value, trees => some (.number value pos :: trees)
    | .neg, operand :: rest => some (.unary .minus operand pos :: rest)
    | opcode, right :: left :: rest =>
      opcode.operation?.map fun op => .binary op left right pos :: rest
    | _, _ => none

/-- Reads back a program, on a stack of trees that have been read back before. -/
def rebuildTrees? (trees : List Expr) : List Instr → Option (List Expr)
  | [] => some trees
  | i :: rest => (i.rebuild? trees).bind fun next => rebuildTrees? next rest

/-- An expression without signs that change nothing and without empty groups. -/
def Expr.IsEssential : Expr → Prop
  | .number _ _ | .foreign _ _ _ => True
  | .empty _ => False
  | .unary op operand _ => op ≠ .plus ∧ operand.IsEssential
  | .binary _ left right _ => left.IsEssential ∧ right.IsEssential

/-- The program of a stack of trees: the lowest tree comes first. -/
def stackCode (trees : List Expr) : List Instr := trees.reverse.flatMap (·.postorder.code)

/-- The code of the topmost tree comes last. -/
theorem stackCode_cons (e : Expr) (trees : List Expr) :
    stackCode (e :: trees) = stackCode trees ++ e.postorder.code := by
  simp [stackCode]

/-! ## Compilation is undone -/

/-- An operator that has an opcode is an operation. -/
theorem Operator.mem_operations_of_binaryOpcode? {op : Operator} {opcode : Opcode}
    (h : op.binaryOpcode? = some opcode) : op ∈ Operator.operations := by
  cases op with
  | other => cases h
  | _ => decide

namespace Expr

/-- The trees whose compilation succeeds are those of the language. -/
theorem arithmetic_of_fault_postorder {e : Expr} (h : e.postorder.fault = none) : e.Arithmetic := by
  induction e with
  | number value pos => exact .number value pos
  | empty pos => exact .empty pos
  | unary op operand pos ih =>
      cases op with
      | plus => exact .unary pos (by decide) (ih h)
      | minus =>
          cases hoperand : operand.postorder.fault with
          | none => exact .unary pos (by decide) (ih hoperand)
          | some fault =>
              rw [postorder, Compilation.andThen_of_fault_eq_some hoperand, hoperand] at h
              cases h
      | _ => cases h
  | binary op left right pos ihl ihr =>
      simp only [postorder] at h
      split at h
      · next opcode hop =>
        have hmem := Operator.mem_operations_of_binaryOpcode? hop
        cases hleft : left.postorder.fault with
        | some fault =>
            rw [Compilation.andThen_of_fault_eq_some hleft, hleft] at h
            cases h
        | none =>
            rw [Compilation.andThen_of_fault_eq_none hleft] at h
            cases hright : right.postorder.fault with
            | some fault =>
                rw [Compilation.andThen_of_fault_eq_some hright, hright] at h
                cases h
            | none => exact .binary pos hmem (ihl hleft) (ihr hright)
      · cases h
  | foreign label payload pos => cases h

/-- The program of an expression is that of the walk in postorder, and the expression belongs to the
language. -/
theorem compile_eq_ok_iff {e : Expr} {code : List Instr} :
    e.compile = .ok code ↔ e.Arithmetic ∧ e.postorder.code = code := by
  constructor
  · intro h
    rw [compile, compilation_eq_postorder] at h
    split at h
    · next code' hcode =>
      cases h
      exact ⟨arithmetic_of_fault_postorder (by rw [hcode]), by rw [hcode]⟩
    · cases h
  · rintro ⟨harith, rfl⟩
    exact harith.compile_eq

/-- The code of a negation is that of the operand and a negation. -/
theorem Arithmetic.code_postorder_negated {operand : Expr} (h : operand.Arithmetic) (pos : Position) :
    (Expr.unary .minus operand pos).postorder.code = operand.postorder.code ++ [⟨.neg, some pos⟩] := by
  rw [postorder, Compilation.andThen_of_fault_eq_none h.fault_postorder]
  simp only [Compilation.code_emit]

/-- The code of an operation is that of the operands from left to right and its opcode. -/
theorem Arithmetic.code_postorder_binary {left right : Expr} (hl : left.Arithmetic)
    (hr : right.Arithmetic) {op : Operator} {opcode : Opcode} (hop : op.binaryOpcode? = some opcode)
    (pos : Position) :
    (Expr.binary op left right pos).postorder.code =
      left.postorder.code ++ (right.postorder.code ++ [⟨opcode, some pos⟩]) := by
  simp only [postorder, hop]
  rw [Compilation.andThen_of_fault_eq_none hl.fault_postorder,
    Compilation.andThen_of_fault_eq_none hr.fault_postorder]
  simp only [Compilation.code_emit]

end Expr

/-- Two programs are decoded one after the other. -/
theorem rebuildTrees?_append (trees : List Expr) (first second : List Instr) :
    rebuildTrees? trees (first ++ second) =
      (rebuildTrees? trees first).bind fun next => rebuildTrees? next second := by
  induction first generalizing trees with
  | nil => rfl
  | cons i first ih =>
      simp only [List.cons_append, rebuildTrees?]
      cases i.rebuild? trees with
      | none => rfl
      | some next => exact ih next

/-- The instruction of an operation joins the two topmost trees. -/
theorem Operator.rebuild?_binaryOpcode {op : Operator} {opcode : Opcode}
    (h : op.binaryOpcode? = some opcode) (pos : Position) (left right : Expr) (trees : List Expr) :
    Instr.rebuild? ⟨opcode, some pos⟩ (right :: left :: trees) =
      some (.binary op left right pos :: trees) := by
  cases op <;> cases h <;> rfl

/-- The program of an expression reads back as the expression, on top of any stack. -/
theorem Expr.Arithmetic.rebuildTrees?_postorder {e : Expr} (h : e.Arithmetic) (hess : e.IsEssential)
    (trees : List Expr) : rebuildTrees? trees e.postorder.code = some (e :: trees) := by
  induction h generalizing trees with
  | number value pos => rfl
  | empty pos => exact hess.elim
  | @unary op operand pos hop h ih =>
      simp only [Operator.signs, List.mem_cons, List.not_mem_nil, or_false] at hop
      rcases hop with rfl | rfl
      · exact absurd rfl hess.1
      · rw [h.code_postorder_negated, rebuildTrees?_append, ih hess.2]
        rfl
  | @binary op left right pos hop hl hr ihl ihr =>
      cases hopcode : op.binaryOpcode? with
      | none =>
          have hfault := (Arithmetic.binary pos hop hl hr).fault_postorder
          simp [postorder, hopcode, Compilation.stop] at hfault
      | some opcode =>
          rw [hl.code_postorder_binary hr hopcode, rebuildTrees?_append, ihl hess.1, Option.bind_some,
            rebuildTrees?_append, ihr hess.2, Option.bind_some, rebuildTrees?,
            Operator.rebuild?_binaryOpcode hopcode]
          rfl

/-! ## Reading back is undone -/

namespace Instr

/-- All that reading back an instruction can do: put a number on the stack, negate the topmost tree, or
join the two topmost trees. -/
theorem rebuild?_cases {i : Instr} {trees next : List Expr} (h : i.rebuild? trees = some next) :
    ∃ pos, i.pos = some pos ∧
      ((∃ value, i.opcode = .push value ∧ next = .number value pos :: trees) ∨
        (∃ operand rest, i.opcode = .neg ∧ trees = operand :: rest ∧
          next = .unary .minus operand pos :: rest) ∨
        ∃ op left right rest, op.binaryOpcode? = some i.opcode ∧ trees = right :: left :: rest ∧
          next = .binary op left right pos :: rest) := by
  obtain ⟨opcode, pos?⟩ := i
  cases pos? with
  | none => cases h
  | some pos =>
      refine ⟨pos, rfl, ?_⟩
      cases opcode with
      | push value =>
          cases h
          exact .inl ⟨value, rfl, rfl⟩
      | neg =>
          cases trees with
          | nil => cases h
          | cons operand rest =>
              cases h
              exact .inr (.inl ⟨operand, rest, rfl, rfl, rfl⟩)
      | add | sub | mul | div =>
          rcases trees with _ | ⟨right, _ | ⟨left, rest⟩⟩
          · cases h
          · cases h
          · cases h
            exact .inr (.inr ⟨_, left, right, rest, rfl, rfl, rfl⟩)
      | foreign label description =>
          rcases trees with _ | ⟨right, _ | ⟨left, rest⟩⟩ <;> cases h

/-- Reading back finds the trees that the instruction needs and changes their number by its gain. -/
theorem length_of_rebuild? {i : Instr} {trees next : List Expr} (h : i.rebuild? trees = some next) :
    i.opcode.needs ≤ trees.length ∧ (next.length : Int) = trees.length + i.opcode.gain := by
  obtain ⟨pos, -, ⟨value, hopcode, rfl⟩ | ⟨operand, rest, hopcode, rfl, rfl⟩ |
    ⟨op, left, right, rest, hopcode, rfl, rfl⟩⟩ := rebuild?_cases h
  · simp [hopcode, Opcode.needs, Opcode.gain]
  · simp [hopcode, Opcode.needs, Opcode.gain]
  · have hopcode' : i.opcode.needs = 2 ∧ i.opcode.gain = -1 := by
      generalize i.opcode = opcode at hopcode
      cases op <;> cases hopcode <;> exact ⟨rfl, rfl⟩
    rw [hopcode'.1, hopcode'.2]
    simp only [List.length_cons]
    omega

/-- An instruction of the machine with a position is read back if the trees suffice. -/
theorem exists_rebuild? {i : Instr} (hpos : i.pos.isSome) (hknown : i.opcode.isKnown) {trees : List Expr}
    (hneeds : i.opcode.needs ≤ trees.length) : ∃ next, i.rebuild? trees = some next := by
  obtain ⟨opcode, pos?⟩ := i
  obtain ⟨pos, rfl⟩ := Option.isSome_iff_exists.mp hpos
  cases opcode with
  | push value => exact ⟨_, rfl⟩
  | neg =>
      cases trees with
      | nil => simp [Opcode.needs] at hneeds
      | cons operand rest => exact ⟨_, rfl⟩
  | add | sub | mul | div =>
      rcases trees with _ | ⟨right, _ | ⟨left, rest⟩⟩
      · simp [Opcode.needs] at hneeds
      · simp [Opcode.needs] at hneeds
      · exact ⟨_, rfl⟩
  | foreign label description => cases hknown

end Instr

/-- A tree of the language that holds nothing which compilation removes. -/
structure Expr.IsRecoverable (e : Expr) : Prop where
  arithmetic : e.Arithmetic
  essential : e.IsEssential

/-- Reading back an instruction appends it to the program of the trees. -/
theorem Instr.stackCode_of_rebuild? {i : Instr} {trees next : List Expr}
    (htrees : ∀ e ∈ trees, e.IsRecoverable) (h : i.rebuild? trees = some next) :
    (∀ e ∈ next, e.IsRecoverable) ∧ stackCode next = stackCode trees ++ [i] := by
  obtain ⟨opcode, pos?⟩ := i
  obtain ⟨pos, rfl, ⟨value, rfl, rfl⟩ | ⟨operand, rest, rfl, rfl, rfl⟩ |
    ⟨op, left, right, rest, hopcode, rfl, rfl⟩⟩ := Instr.rebuild?_cases h
  · refine ⟨List.forall_mem_cons.mpr ⟨⟨.number value pos, trivial⟩, htrees⟩, ?_⟩
    rw [stackCode_cons]
    rfl
  · obtain ⟨hoperand, hrest⟩ := List.forall_mem_cons.mp htrees
    refine ⟨List.forall_mem_cons.mpr ⟨⟨.unary pos (by decide) hoperand.arithmetic, ?_⟩, hrest⟩, ?_⟩
    · exact ⟨by decide, hoperand.essential⟩
    · rw [stackCode_cons, stackCode_cons, hoperand.arithmetic.code_postorder_negated,
        List.append_assoc]
  · obtain ⟨hright, hleft, hrest⟩ : right.IsRecoverable ∧ left.IsRecoverable ∧
        ∀ e ∈ rest, e.IsRecoverable := by simpa using htrees
    have hop := Operator.mem_operations_of_binaryOpcode? hopcode
    refine ⟨List.forall_mem_cons.mpr ⟨⟨.binary pos hop hleft.arithmetic hright.arithmetic, ?_⟩, hrest⟩,
      ?_⟩
    · exact ⟨hleft.essential, hright.essential⟩
    · rw [stackCode_cons, stackCode_cons, stackCode_cons,
        hleft.arithmetic.code_postorder_binary hright.arithmetic hopcode, List.append_assoc,
        List.append_assoc]

section Runs

variable {trees final : List Expr} {code : List Instr}

/-- Reading back a program appends it to the program of the trees. -/
theorem stackCode_of_rebuildTrees? (htrees : ∀ e ∈ trees, e.IsRecoverable)
    (h : rebuildTrees? trees code = some final) :
    (∀ e ∈ final, e.IsRecoverable) ∧ stackCode final = stackCode trees ++ code := by
  induction code generalizing trees with
  | nil =>
      cases h
      exact ⟨htrees, by simp⟩
  | cons i code ih =>
      obtain ⟨next, hnext, hrest⟩ := Option.bind_eq_some_iff.mp h
      obtain ⟨hrecoverable, hstep⟩ := Instr.stackCode_of_rebuild? htrees hnext
      obtain ⟨hfinal, hcode⟩ := ih hrecoverable hrest
      refine ⟨hfinal, ?_⟩
      rw [hcode, hstep, List.append_assoc]
      rfl

/-- A program that is read back has enough operands all along. -/
theorem balancedFrom_of_rebuildTrees? (h : rebuildTrees? trees code = some final) :
    BalancedFrom trees.length code final.length := by
  induction code generalizing trees with
  | nil =>
      cases h
      exact .nil _
  | cons i code ih =>
      obtain ⟨next, hnext, hrest⟩ := Option.bind_eq_some_iff.mp h
      obtain ⟨hneeds, hgain⟩ := Instr.length_of_rebuild? hnext
      exact .cons hneeds hgain (ih hrest)

/-- A program of located instructions that has enough operands all along is read back. -/
theorem BalancedFrom.exists_rebuildTrees? {finish : Nat} (h : BalancedFrom trees.length code finish)
    (hcode : ∀ i ∈ code, i.pos.isSome ∧ i.opcode.isKnown) :
    ∃ final, rebuildTrees? trees code = some final ∧ final.length = finish := by
  induction code generalizing trees with
  | nil =>
      have hleft := h.left
      refine ⟨trees, rfl, ?_⟩
      rw [operandsLeft_nil] at hleft
      omega
  | cons i code ih =>
      obtain ⟨⟨hpos, hknown⟩, hrest⟩ := List.forall_mem_cons.mp hcode
      obtain ⟨hneeds, count, hcount, hbalanced⟩ := h.of_cons
      obtain ⟨next, hnext⟩ := Instr.exists_rebuild? hpos hknown hneeds
      have hlength := (Instr.length_of_rebuild? hnext).2
      obtain rfl : count = next.length := by omega
      obtain ⟨final, hfinal, hfinish⟩ := ih hbalanced hrest
      exact ⟨final, by simp [rebuildTrees?, hnext, hfinal], hfinish⟩

end Runs

/-- Reading back a compiled program returns the one expression that it comes from. -/
theorem Expr.IsEssential.rebuildTrees?_of_compile {e : Expr} (h : e.IsEssential) {code : List Instr}
    (hcode : e.compile = .ok code) : rebuildTrees? [] code = some [e] := by
  obtain ⟨harith, rfl⟩ := Expr.compile_eq_ok_iff.mp hcode
  exact harith.rebuildTrees?_postorder h []

/-- A balanced program is the program of an expression without signs that change nothing and without
empty groups. -/
theorem IsBalanced.exists_isRecoverable {code : List Instr} (h : IsBalanced code)
    (hcode : ∀ i ∈ code, i.pos.isSome ∧ i.opcode.isKnown) :
    ∃ e : Expr, e.IsRecoverable ∧ e.postorder.code = code := by
  have hempty : BalancedFrom ([] : List Expr).length code 1 := h
  obtain ⟨final, hfinal, hlength⟩ := hempty.exists_rebuildTrees? hcode
  obtain ⟨e, rfl⟩ := List.length_eq_one_iff.mp hlength
  obtain ⟨hrecoverable, hstack⟩ := stackCode_of_rebuildTrees? (by simp) hfinal
  exact ⟨e, hrecoverable e (by simp), by simpa [stackCode] using hstack⟩

/-- For every program of the machine's instructions, each with a position: it is the program of an
expression without signs that change nothing and without empty groups if and only if it is balanced; there
is at most one such expression; a balanced program returns a value or divides by zero; and one that is not
balanced returns no value. -/
theorem compile_uniquely_decodable {code : List Instr}
    (hcode : ∀ i ∈ code, i.pos.isSome ∧ i.opcode.isKnown) :
    ((∃ e : Expr, e.IsEssential ∧ e.compile = .ok code) ↔ IsBalanced code) ∧
      (∀ e e' : Expr, e.IsEssential → e'.IsEssential → e.compile = .ok code →
        e'.compile = .ok code → e = e') ∧
      (IsBalanced code → (∃ value, execute code = .ok value) ∨
        ∃ pos, execute code = .error (.zeroDivision pos)) ∧
      (¬IsBalanced code → ∀ value, execute code ≠ .ok value) := by
  refine ⟨⟨?_, ?_⟩, ?_, ?_, ?_⟩
  · rintro ⟨e, hessential, hcompile⟩
    exact balancedFrom_of_rebuildTrees? (hessential.rebuildTrees?_of_compile hcompile)
  · intro hbalanced
    obtain ⟨e, hrecoverable, hpostorder⟩ := hbalanced.exists_isRecoverable hcode
    exact ⟨e, hrecoverable.essential, Expr.compile_eq_ok_iff.mpr ⟨hrecoverable.arithmetic, hpostorder⟩⟩
  · intro e e' hessential hessential' hcompile hcompile'
    have hread := hessential.rebuildTrees?_of_compile hcompile
    rw [hessential'.rebuildTrees?_of_compile hcompile'] at hread
    cases hread
    rfl
  · intro hbalanced
    obtain ⟨e, hrecoverable, rfl⟩ := hbalanced.exists_isRecoverable hcode
    rw [hrecoverable.arithmetic.execute_postorder]
    obtain ⟨value, hvalue, -⟩ | ⟨pos, hpos, -⟩ := hrecoverable.arithmetic.value_cases
    · exact .inl ⟨value, hvalue⟩
    · exact .inr ⟨pos, hpos⟩
  · intro hunbalanced value hvalue
    exact hunbalanced (isBalanced_of_execute hvalue)

/-- The program of `6 / -2` is balanced and comes from that expression alone. Without the divisor it is
not balanced, comes from no expression and returns no value. -/
theorem compile_uniquely_decodable_negated_divisor :
    let e : Expr := .binary .over (.number 6 ⟨1, 1⟩) (.unary .minus (.number 2 ⟨1, 6⟩) ⟨1, 5⟩) ⟨1, 3⟩
    let code : List Instr := [⟨.push 6, some ⟨1, 1⟩⟩, ⟨.push 2, some ⟨1, 6⟩⟩, ⟨.neg, some ⟨1, 5⟩⟩,
      ⟨.div, some ⟨1, 3⟩⟩]
    let cut : List Instr := [⟨.push 6, some ⟨1, 1⟩⟩, ⟨.neg, some ⟨1, 5⟩⟩, ⟨.div, some ⟨1, 3⟩⟩]
    e.compile = .ok code ∧ IsBalanced code ∧
      (∀ e' : Expr, e'.IsEssential → e'.compile = .ok code → e' = e) ∧
      (¬∃ e' : Expr, e'.IsEssential ∧ e'.compile = .ok cut) ∧ ∀ value, execute cut ≠ .ok value := by
  intro e code cut
  have harith : e.Arithmetic :=
    .binary _ (by decide) (.number _ _) (.unary _ (by decide) (.number _ _))
  have hessential : e.IsEssential := ⟨trivial, by decide, trivial⟩
  have hcompile : e.compile = .ok code := Expr.compile_eq_ok_iff.mpr ⟨harith, rfl⟩
  obtain ⟨hcode, hunique, -, -⟩ := compile_uniquely_decodable (show ∀ i ∈ code, _ by decide)
  obtain ⟨hcut, -, -, hnone⟩ := compile_uniquely_decodable (show ∀ i ∈ cut, _ by decide)
  have hunbalanced : ¬IsBalanced cut := fun h => absurd h.left (by decide)
  refine ⟨hcompile, hcode.mp ⟨e, hessential, hcompile⟩, ?_, fun h => hunbalanced (hcut.mp h),
    hnone hunbalanced⟩
  intro e' hessential' hcompile'
  exact hunique e' e hessential' hessential hcompile' hcompile

end Calculator
