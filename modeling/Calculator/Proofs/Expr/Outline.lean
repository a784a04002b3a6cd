import Calculator.Proofs.Expr.Preorder
import Calculator.Proofs.Expr.Traversal
import Calculator.Proofs.Number.Literal
import Calculator.Proofs.Position.Independence
import Calculator.Proofs.Text.Line

/-!
# Outlines are unambiguous

An outline shows a tree node by node in preorder, a line for each. It is cut into those lines again, for no heading
holds a line break (`physicalLines_outline`), and without its margin a line tells what its node is
(`kind_eq_of_heading_eq`). What a node is also tells how many operands come after it. So the headings of a tree are
a prefix code: they tell the tree up to positions, whatever other headings follow (`unplaced_eq_of_headingsFrom`).
-/

set_option autoImplicit false

namespace Calculator

/-! ## Symbols -/

/-- The symbol of an operation tells the operation. -/
theorem Operator.ofSymbol_symbol {op : Operator} (h : op ∈ operations) : ofSymbol op.symbol = op := by
  simp only [operations, List.mem_cons, List.not_mem_nil, or_false] at h
  rcases h with rfl | rfl | rfl | rfl <;> rfl

/-- Operations have different symbols. -/
theorem Operator.symbol_injOn {op op' : Operator} (h : op ∈ operations) (h' : op' ∈ operations)
    (heq : op.symbol = op'.symbol) : op = op' := by
  rw [← ofSymbol_symbol h, heq, ofSymbol_symbol h']

/-- Every sign is also the symbol of an operation. -/
theorem Operator.signs_subset_operations : signs ⊆ operations := by decide

namespace Expr

/-! ## Nodes in preorder -/

/-- The nodes of a tree of the language are trees of the language. -/
theorem Arithmetic.of_mem_preorderFrom {e : Expr} (h : e.Arithmetic) {depth : Nat} {node : Nat × Expr}
    (hnode : node ∈ e.preorderFrom depth) : node.2.Arithmetic := by
  induction h generalizing depth with
  | number value pos =>
      obtain rfl := List.mem_singleton.mp hnode
      exact .number value pos
  | empty pos =>
      obtain rfl := List.mem_singleton.mp hnode
      exact .empty pos
  | unary pos hop h ih =>
      rcases List.mem_cons.mp hnode with rfl | hnode
      · exact .unary pos hop h
      · exact ih hnode
  | binary pos hop hl hr ihl ihr =>
      rcases List.mem_cons.mp hnode with rfl | hnode
      · exact .binary pos hop hl hr
      · rcases List.mem_append.mp hnode with hnode | hnode
        · exact ihl hnode
        · exact ihr hnode

/-! ## Headings -/

/-- What the root of a tree is. -/
def kind : Expr → NodeKind
  | .number value _ => .number value
  | .empty _ => .empty
  | .unary op _ _ => .sign op
  | .binary op _ _ _ => .operation op
  | .foreign label payload _ => .foreign label payload

section Headings

variable {e e' : Expr} (h : e.Arithmetic)
include h

/-- A tree of the language has one of four labels. -/
theorem Arithmetic.label_mem : e.label ∈ ["Number", "Empty", "UnaryOp", "BinaryOp"] := by
  cases h <;> simp [label]

/-- A heading starts with a letter. -/
theorem Arithmetic.exists_heading_eq_cons : ∃ c tail, e.heading.toList = c :: tail ∧ c ≠ ' ' := by
  cases h <;> simp [heading, payload?, label]

/-- What a node of the language holds is written without a line break. -/
theorem Arithmetic.unbroken_payload : ∀ payload ∈ e.payload?, payload.toList.any Text.isLineBreak = false := by
  have hsymbol : ∀ op ∈ Operator.operations, op.symbol.toList.any Text.isLineBreak = false := by decide
  intro payload hpayload
  cases h with
  | number value pos =>
      cases hpayload
      exact Number.unbroken_literal value
  | empty pos => cases hpayload
  | unary pos hop h =>
      cases hpayload
      exact hsymbol _ (Operator.signs_subset_operations hop)
  | binary pos hop hl hr =>
      cases hpayload
      exact hsymbol _ hop

/-- A heading is written on one line. -/
theorem Arithmetic.unbroken_heading : e.heading.toList.any Text.isLineBreak = false := by
  have hlabels : ∀ label ∈ ["Number", "Empty", "UnaryOp", "BinaryOp"],
      label.toList.any Text.isLineBreak = false := by decide
  have hlabel := hlabels _ h.label_mem
  have hblank : " ".toList.any Text.isLineBreak = false := by decide
  unfold heading
  cases hpayload : e.payload? with
  | none => exact hlabel
  | some payload =>
      simp only [String.toList_append, List.any_append, hlabel, hblank, h.unbroken_payload payload hpayload,
        Bool.or_false]

/-- What a node is can be told from its heading. -/
theorem Arithmetic.kind_eq_of_heading_eq (h' : e'.Arithmetic) (heq : e.heading = e'.heading) : e.kind = e'.kind := by
  -- The labels start with different letters.
  have hinitial := congrArg (fun text : String => text.toList.head?) heq
  cases h with
  | number value pos =>
      cases h' with
      | number value' pos' =>
          have hliteral : Number.literal value = Number.literal value' := (String.append_right_inj _).mp heq
          exact congrArg NodeKind.number (Number.literal_injective hliteral)
      | _ => simp [heading, payload?, label] at hinitial
  | empty pos =>
      cases h' with
      | empty pos' => rfl
      | _ => simp [heading, payload?, label] at hinitial
  | unary pos hop h =>
      cases h' with
      | unary pos' hop' h' =>
          have hsymbol := (String.append_right_inj _).mp heq
          exact congrArg NodeKind.sign (Operator.symbol_injOn (Operator.signs_subset_operations hop)
            (Operator.signs_subset_operations hop') hsymbol)
      | _ => simp [heading, payload?, label] at hinitial
  | binary pos hop hl hr =>
      cases h' with
      | binary pos' hop' hl' hr' =>
          have hsymbol := (String.append_right_inj _).mp heq
          exact congrArg NodeKind.operation (Operator.symbol_injOn hop hop' hsymbol)
      | _ => simp [heading, payload?, label] at hinitial

end Headings

/-! ## Lines of an outline -/

/-- The line of a node: two blanks for each level, none if it is negative, and the heading. -/
def outlineLine (indent : Int) (node : Nat × Expr) : List Char :=
  List.replicate (2 * (indent + node.1).toNat) ' ' ++ node.2.heading.toList

/-- An outline is the lines of its nodes, joined by newlines. -/
theorem toList_outline (indent : Int) (e : Expr) :
    (e.outline indent).toList = ['\n'].intercalate ((e.preorderFrom 0).map (outlineLine indent)) := by
  have hlines : (e.outlineLines indent).map String.toList = (e.preorderFrom 0).map (outlineLine indent) := by
    rw [outlineLines, preorder_eq, List.map_map]
    apply List.map_congr_left
    intro node _
    rw [Function.comp_apply, String.toList_append, margin, Text.spaces, String.toList_ofList]
    rfl
  rw [outline, String.toList_intercalate, hlines]
  rfl

section Lines

variable {node : Nat × Expr} (h : node.2.Arithmetic) (indent : Int)
include h

/-- The line of a node is not empty. -/
theorem Arithmetic.outlineLine_ne_nil : outlineLine indent node ≠ [] := by
  obtain ⟨c, tail, hheading, -⟩ := h.exists_heading_eq_cons
  simp [outlineLine, hheading]

/-- The line of a node holds no line break. -/
theorem Arithmetic.unbroken_outlineLine : ∀ c ∈ outlineLine indent node, Text.isLineBreak c = false := by
  intro c hc
  rcases List.mem_append.mp hc with hc | hc
  · rw [List.eq_of_mem_replicate hc]
    decide
  · exact Bool.eq_false_iff.mpr (List.any_eq_false.mp h.unbroken_heading c hc)

/-- Without its margin, the line of a node is its heading. -/
theorem Arithmetic.dropWhile_outlineLine :
    (outlineLine indent node).dropWhile (· == ' ') = node.2.heading.toList := by
  obtain ⟨c, tail, hheading, hc⟩ := h.exists_heading_eq_cons
  have hmargin : ∀ d ∈ List.replicate (2 * (indent + node.1).toNat) ' ', (d == ' ') = true :=
    fun d hd => beq_iff_eq.mpr (List.eq_of_mem_replicate hd)
  rw [outlineLine, List.dropWhile_append_of_pos hmargin, hheading, List.dropWhile_cons_of_neg]
  exact mt beq_iff_eq.mp hc

end Lines

/-- The headings of the nodes of a tree in preorder. -/
def headingsFrom (depth : Nat) (e : Expr) : List String := (e.preorderFrom depth).map fun node => node.2.heading

section Outline

variable {e : Expr} (h : e.Arithmetic) (indent : Int)
include h

/-- An outline is cut into the lines of its nodes. -/
theorem Arithmetic.physicalLines_outline :
    Text.physicalLines (e.outline indent).toList = (e.preorderFrom 0).map (outlineLine indent) := by
  rw [toList_outline]
  apply Text.physicalLines_intercalate
  · intro line hline
    obtain ⟨node, hnode, rfl⟩ := List.mem_map.mp hline
    exact (h.of_mem_preorderFrom hnode).outlineLine_ne_nil indent
  · intro line hline
    obtain ⟨node, hnode, rfl⟩ := List.mem_map.mp hline
    exact (h.of_mem_preorderFrom hnode).unbroken_outlineLine indent

/-- The headings of the nodes are found in the outline. -/
theorem Arithmetic.headings_outline :
    (Text.physicalLines (e.outline indent).toList).map (fun line => String.ofList (line.dropWhile (· == ' '))) =
      e.headingsFrom 0 := by
  rw [h.physicalLines_outline, List.map_map]
  apply List.map_congr_left
  intro node hnode
  rw [Function.comp_apply, (h.of_mem_preorderFrom hnode).dropWhile_outlineLine, String.ofList_toList]

end Outline

/-! ## Trees and their headings -/

/-- The heading of the root comes first. -/
theorem exists_headingsFrom_eq_cons (depth : Nat) (e : Expr) :
    ∃ below, e.headingsFrom depth = e.heading :: below := by
  cases e <;> exact ⟨_, rfl⟩

/-- After the heading of a sign come those of its operand. -/
theorem headingsFrom_unary (depth : Nat) (op : Operator) (operand : Expr) (pos : Position) :
    (unary op operand pos).headingsFrom depth = (unary op operand pos).heading :: operand.headingsFrom (depth + 1) :=
  rfl

/-- After the heading of an operation come those of the left operand and then those of the right one. -/
theorem headingsFrom_binary (depth : Nat) (op : Operator) (left right : Expr) (pos : Position) :
    (binary op left right pos).headingsFrom depth =
      (binary op left right pos).heading :: (left.headingsFrom (depth + 1) ++ right.headingsFrom (depth + 1)) :=
  congrArg _ List.map_append

/-- Trees whose headings start alike have roots of the same kind. -/
theorem Arithmetic.kind_eq_of_headingsFrom {e e' : Expr} (h : e.Arithmetic) (h' : e'.Arithmetic)
    {depth depth' : Nat} {rest rest' : List String}
    (heq : e.headingsFrom depth ++ rest = e'.headingsFrom depth' ++ rest') : e.kind = e'.kind := by
  obtain ⟨below, hbelow⟩ := exists_headingsFrom_eq_cons depth e
  obtain ⟨below', hbelow'⟩ := exists_headingsFrom_eq_cons depth' e'
  rw [hbelow, hbelow'] at heq
  exact h.kind_eq_of_heading_eq h' (List.cons.inj heq).1

/-- The headings of a tree tell the tree up to positions, whatever follows them: each root tells how many operands
come next, and the headings of an operand tell where they end. -/
theorem Arithmetic.unplaced_eq_of_headingsFrom {e e' : Expr} (h : e.Arithmetic) (h' : e'.Arithmetic)
    {depth depth' : Nat} {rest rest' : List String}
    (heq : e.headingsFrom depth ++ rest = e'.headingsFrom depth' ++ rest') :
    e.unplaced = e'.unplaced ∧ rest = rest' := by
  -- The roots are of one kind, so the trees have as many operands, and each operand is told in its turn.
  induction h generalizing e' depth depth' rest rest' with
  | number value pos =>
      have hkind := (Arithmetic.number value pos).kind_eq_of_headingsFrom h' heq
      cases h' with
      | number value' pos' =>
          cases hkind
          exact ⟨rfl, (List.cons.inj heq).2⟩
      | _ => cases hkind
  | empty pos =>
      have hkind := (Arithmetic.empty pos).kind_eq_of_headingsFrom h' heq
      cases h' with
      | empty pos' => exact ⟨rfl, (List.cons.inj heq).2⟩
      | _ => cases hkind
  | @unary op operand pos hop h ih =>
      have hkind := (Arithmetic.unary pos hop h).kind_eq_of_headingsFrom h' heq
      cases h' with
      | unary pos' hop' h' =>
          cases hkind
          rw [headingsFrom_unary, headingsFrom_unary, List.cons_append, List.cons_append] at heq
          obtain ⟨hoperand, hrest⟩ := ih h' (List.cons.inj heq).2
          exact ⟨congrArg (Expr.unary op · .start) hoperand, hrest⟩
      | _ => cases hkind
  | @binary op left right pos hop hl hr ihl ihr =>
      have hkind := (Arithmetic.binary pos hop hl hr).kind_eq_of_headingsFrom h' heq
      cases h' with
      | binary pos' hop' hl' hr' =>
          cases hkind
          rw [headingsFrom_binary, headingsFrom_binary, List.cons_append, List.cons_append, List.append_assoc,
            List.append_assoc] at heq
          obtain ⟨hleft, hright⟩ := ihl hl' (List.cons.inj heq).2
          obtain ⟨hright, hrest⟩ := ihr hr' hright
          exact ⟨congrArg₂ (Expr.binary op · · .start) hleft hright, hrest⟩
      | _ => cases hkind

/-! ## Positions -/

/-- Moving the positions of a tree does not change the lines of its outline. -/
theorem map_outlineLine_relocate (f : Position → Position) (indent : Int) (depth : Nat) (e : Expr) :
    ((e.relocate f).preorderFrom depth).map (outlineLine indent) = (e.preorderFrom depth).map (outlineLine indent) := by
  induction e generalizing depth with
  | number value pos | empty pos | foreign label payload pos => rfl
  | unary op operand pos ih => exact congrArg (outlineLine indent (depth, unary op operand pos) :: ·) (ih (depth + 1))
  | binary op left right pos ihl ihr =>
      simp only [relocate, preorderFrom, List.map_cons, List.map_append, ihl, ihr]
      rfl

/-- Positions are not shown. -/
theorem outline_relocate (f : Position → Position) (indent : Int) (e : Expr) :
    (e.relocate f).outline indent = e.outline indent := by
  apply String.toList_injective
  rw [toList_outline, toList_outline, map_outlineLine_relocate]

/-- The outline of a tree has one line for each node, in preorder and with the left operand before the right. The
level of a line is the indentation plus the depth of the node, and two blanks for each level stand before the
heading; a negative level has none. Two trees of the language share an outline exactly if they are equal up to
positions. -/
theorem outline_unambiguous {e e' : Expr} (he : e.Arithmetic) (he' : e'.Arithmetic) (indent : Int) :
    Text.physicalLines (e.outline indent).toList = (e.preorderFrom 0).map (fun node =>
        List.replicate (2 * (indent + node.1).toNat) ' ' ++ node.2.heading.toList) ∧
      (e.outline indent = e'.outline indent ↔ e.unplaced = e'.unplaced) := by
  refine ⟨he.physicalLines_outline indent, ?_, ?_⟩
  · intro houtline
    have hheadings : e.headingsFrom 0 = e'.headingsFrom 0 := by
      rw [← he.headings_outline indent, ← he'.headings_outline indent, houtline]
    have hnil := congrArg (· ++ ([] : List String)) hheadings
    exact (he.unplaced_eq_of_headingsFrom he' hnil).1
  · intro hunplaced
    rw [← outline_relocate (fun _ => .start) indent e, ← outline_relocate (fun _ => .start) indent e']
    exact congrArg (outline indent) hunplaced

/-- At a negative indentation, the two topmost levels of `-1.5 * ()` have no margin. -/
theorem outline_unambiguous_negative_indent :
    let value := Float.ofBits (UInt64.ofNat 0x3ff8000000000000)
    let e := binary .times (unary .minus (number value ⟨1, 2⟩) ⟨1, 1⟩) (empty ⟨1, 8⟩) ⟨1, 6⟩
    let e' := binary .times (unary .minus (number value ⟨1, 2⟩) ⟨1, 1⟩) (empty ⟨2, 1⟩) ⟨2, 1⟩
    e.Arithmetic ∧ e'.Arithmetic ∧
      Text.physicalLines (e.outline (-1)).toList =
        ["BinaryOp *", "UnaryOp -", "  Number 1.5", "Empty"].map String.toList ∧
      e ≠ e' ∧ e.outline (-1) = e'.outline (-1) := by
  intro value e e'
  have he : e.Arithmetic := .binary _ (by decide) (.unary _ (by decide) (.number _ _)) (.empty _)
  have he' : e'.Arithmetic := .binary _ (by decide) (.unary _ (by decide) (.number _ _)) (.empty _)
  obtain ⟨hlines, hequal⟩ := outline_unambiguous he he' (-1)
  refine ⟨he, he', hlines.trans ?_, by decide +kernel, hequal.mpr rfl⟩
  decide +kernel

end Expr

end Calculator
