import Calculator.Proofs.Expr.OmittedStar
import Calculator.Proofs.Token.Lexeme
import Calculator.Proofs.Token.Segments

/-!
# A tree read from left to right

Read from left to right, a tree gives the tokens back. A number, a sign and an operation stand where their
tokens do, and the rest of the nodes belong to openings: a product to each one that comes right after an
operand, and an empty group to each one that is closed at once. No token is lost, none is used twice, and
none changes places.

What a token stands for depends on its two neighbours alone (`Token.nodesBetween`). The tokens of a phrase
end with an operand, and so they stand for the same nodes whatever follows them; the nodes of the phrase are
then those of its parts, by induction over the derivation (`Derives.nodesAfter_eq`).
-/

set_option autoImplicit false

namespace Calculator

/-! ## Nodes of trees and nodes of tokens -/

/-- What a node of a tree is apart from its operands and its position. -/
inductive NodeKind where
  | number (value : Float)
  | empty
  | sign (op : Operator)
  | operation (op : Operator)
  | foreign (label : String) (payload : Option String)
deriving DecidableEq

/-- A node of a tree without its operands. -/
structure Node where
  kind : NodeKind
  pos : Option Position
deriving DecidableEq

/-- Two nodes that stand at the same position, or the first at an earlier one. -/
def Node.NotAfter (first second : Node) : Prop :=
  ∃ p q, first.pos = some p ∧ second.pos = some q ∧ (p = q ∨ p.Before q)

/-- The nodes of a tree from left to right: a sign before its operand, an operation between its
operands. -/
def Expr.inorder : Expr → List Node
  | .number value pos => [⟨.number value, some pos⟩]
  | .empty pos => [⟨.empty, some pos⟩]
  | .unary op operand pos => ⟨.sign op, some pos⟩ :: operand.inorder
  | .binary op left right pos => left.inorder ++ ⟨.operation op, some pos⟩ :: right.inorder
  | .foreign label payload pos => [⟨.foreign label payload, pos⟩]

namespace Token

/-- What the node of a number token is. -/
def numberKind (t : Token) : NodeKind :=
  match t.value with
  | some value => .number value
  | none => .foreign "Number" (some "None")

/-- The nodes that a token stands for; `afterOperand` says whether the token before it ends an operand, and
`after?` is the token after it. A plus or a minus is an operation after an operand and a sign elsewhere. An
opening stands for a product if it comes right after an operand, and then for an empty group if it is closed
at once. -/
def nodesBetween (afterOperand : Bool) (after? : Option Token) (t : Token) : List Node :=
  let sum (op : Operator) : NodeKind := if afterOperand then .operation op else .sign op
  match t.kind with
  | .number => [⟨t.numberKind, some t.pos⟩]
  | .plus => [⟨sum .plus, some t.pos⟩]
  | .minus => [⟨sum .minus, some t.pos⟩]
  | .star => [⟨.operation .times, some t.pos⟩]
  | .slash => [⟨.operation .over, some t.pos⟩]
  | .lparen =>
    (if afterOperand then [⟨.operation .times, some t.pos⟩] else []) ++
      (if after?.any (·.kind == .rparen) then [⟨.empty, some t.pos⟩] else [])
  | _ => []

/-- The nodes that some tokens stand for, in the order of the tokens; `afterOperand` says whether an operand
ends right before them. -/
def nodesAfter (afterOperand : Bool) : List Token → List Node
  | [] => []
  | t :: rest => t.nodesBetween afterOperand rest.head? ++ nodesAfter t.endsOperand rest

/-- The nodes that the tokens of a text stand for. -/
def nodes (tokens : List Token) : List Node := nodesAfter false tokens

/-! ## Tokens and their neighbours -/

section Neighbours

variable {afterOperand : Bool} {t : Token} {op : Operator}

/-- A token that is neither a number nor a closing ends no operand. -/
theorem endsOperand_eq_false (hnumber : t.kind ≠ .number) (hclosing : t.kind ≠ .rparen) :
    t.endsOperand = false := by
  simp [endsOperand, hnumber, hclosing]

/-- A number stands for a number. -/
theorem nodesAfter_number (ht : t.kind = .number) (rest : List Token) :
    nodesAfter afterOperand (t :: rest) =
      ⟨t.numberKind, some t.pos⟩ :: nodesAfter t.endsOperand rest := by
  simp [nodesAfter, nodesBetween, ht]

/-- A token that stands for one node wherever it is followed, and ends no operand, has that node before the
nodes of the others. -/
theorem nodesAfter_operator {node : Node} (hends : t.endsOperand = false)
    (hnode : ∀ after?, t.nodesBetween afterOperand after? = [node]) (rest : List Token) :
    nodesAfter afterOperand (t :: rest) = node :: nodesAfter false rest := by
  rw [nodesAfter, hends, hnode, List.singleton_append]

/-- A plus or a minus is an operation after an operand, and a sign elsewhere. -/
theorem nodesAfter_additive (ht : t.kind.additive? = some op) (rest : List Token) :
    nodesAfter afterOperand (t :: rest) =
      ⟨if afterOperand then .operation op else .sign op, some t.pos⟩ :: nodesAfter false rest := by
  apply nodesAfter_operator
  all_goals
    unfold TokenKind.additive? at ht
    split at ht <;> cases ht
    all_goals simp [endsOperand, nodesBetween, *]

/-- A star or a slash is an operation. -/
theorem nodesAfter_multiplicative (ht : t.kind.multiplicative? = some op) (rest : List Token) :
    nodesAfter afterOperand (t :: rest) = ⟨.operation op, some t.pos⟩ :: nodesAfter false rest := by
  apply nodesAfter_operator
  all_goals
    unfold TokenKind.multiplicative? at ht
    split at ht <;> cases ht
    all_goals simp [endsOperand, nodesBetween, *]

/-- After an operand, an opening stands for a product before all else. -/
theorem nodesAfter_implied (ht : t.kind = .lparen) (rest : List Token) :
    nodesAfter true (t :: rest) =
      ⟨.operation .times, some t.pos⟩ :: nodesAfter false (t :: rest) := by
  simp [nodesAfter, nodesBetween, ht]

/-- An opening that is not closed at once leaves no node of its own. -/
theorem nodesAfter_opening (ht : t.kind = .lparen) {rest : List Token}
    (hrest : rest.head?.any (·.kind == .rparen) = false) :
    nodesAfter false (t :: rest) = nodesAfter false rest := by
  rw [nodesAfter, endsOperand_eq_false (by simp [ht]) (by simp [ht])]
  simp [nodesBetween, ht, hrest]

/-- A closing at the end stands for nothing. -/
theorem nodesAfter_closing (ht : t.kind = .rparen) : nodesAfter afterOperand [t] = [] := by
  simp [nodesAfter, nodesBetween, ht]

/-- Only an opening asks for the token after it. -/
theorem nodesBetween_eq_of_ne (ht : t.kind ≠ .lparen) (after? after?' : Option Token) :
    t.nodesBetween afterOperand after? = t.nodesBetween afterOperand after?' := by
  unfold nodesBetween
  cases hkind : t.kind with
  | lparen => exact absurd hkind ht
  | _ => rfl

/-- Behind a token that is no opening, the nodes of a list fall into those up to the token and those
after it. -/
theorem nodesAfter_append {last : Token} (hlast : last.kind ≠ .lparen) (afterOperand : Bool)
    (first rest : List Token) :
    nodesAfter afterOperand (first ++ [last] ++ rest) =
      nodesAfter afterOperand (first ++ [last]) ++ nodesAfter last.endsOperand rest := by
  induction first generalizing afterOperand with
  | nil =>
      simp only [List.nil_append, List.singleton_append, nodesAfter, List.append_nil]
      rw [nodesBetween_eq_of_ne hlast]
  | cons t first ih =>
      have hhead : (first ++ [last] ++ rest).head? = (first ++ [last]).head? := by
        cases first <;> rfl
      simp only [List.cons_append, nodesAfter]
      rw [hhead, ih, List.append_assoc]

end Neighbours

end Token

/-! ## The tokens of a phrase -/

/-- The tree of a number token is one node. -/
theorem Expr.inorder_numberOperand (t : Token) :
    (ParseState.numberOperand t).inorder = [⟨t.numberKind, some t.pos⟩] := by
  obtain ⟨kind, pos, value⟩ := t
  cases value <;> rfl

namespace Derives

variable {phrase : Phrase} {tokens : List Token} {n : Nat} {e : Expr}

/-- A group starts with its opening. -/
theorem kind_opening {opening : Token} {rest : List Token} (h : Derives .group (opening :: rest) n e) :
    opening.kind = .lparen := by
  cases h with
  | emptyGroup ho _ | fullGroup ho _ _ => exact ho

/-- A phrase ends with an operand. -/
theorem exists_last (h : Derives phrase tokens n e) :
    ∃ first last, tokens = first ++ [last] ∧ last.endsOperand = true := by
  induction h with
  | whole _ ih | term _ ih | factor _ ih | group _ ih => exact ih
  | @sum before after _ _ _ _ t _ _ _ _ _ ih | @product before after _ _ _ _ t _ _ _ _ _ ih =>
      obtain ⟨first, last, rfl, hlast⟩ := ih
      exact ⟨before ++ t :: first, last, by simp, hlast⟩
  | @implied before after _ _ _ _ opening _ _ _ ih =>
      obtain ⟨first, last, htokens, hlast⟩ := ih
      exact ⟨before ++ first, last, by rw [htokens, List.append_assoc], hlast⟩
  | @number t ht => exact ⟨[], t, rfl, by simp [Token.endsOperand, ht]⟩
  | @sign tokens n e t op _ _ ih =>
      obtain ⟨first, last, rfl, hlast⟩ := ih
      exact ⟨t :: first, last, rfl, hlast⟩
  | @emptyGroup opening closing _ hc =>
      exact ⟨[opening], closing, rfl, by simp [Token.endsOperand, hc]⟩
  | @fullGroup tokens n e opening closing _ _ hc _ =>
      exact ⟨opening :: tokens, closing, rfl, by simp [Token.endsOperand, hc]⟩

/-- The nodes of a list that starts with a phrase are those of the phrase and those behind an operand. -/
theorem nodesAfter_append (h : Derives phrase tokens n e) (afterOperand : Bool)
    (rest : List Token) :
    Token.nodesAfter afterOperand (tokens ++ rest) =
      Token.nodesAfter afterOperand tokens ++ Token.nodesAfter true rest := by
  obtain ⟨first, last, rfl, hlast⟩ := h.exists_last
  rw [← hlast]
  apply Token.nodesAfter_append
  intro hkind
  simp [Token.endsOperand, hkind] at hlast

/-- The tokens of a phrase that does not follow an operand stand for the nodes of its tree, in order. -/
theorem nodesAfter_eq (h : Derives phrase tokens n e) : Token.nodesAfter false tokens = e.inorder := by
  induction h with
  | whole _ ih | term _ ih | factor _ ih | group _ ih => exact ih
  | sum hl ht _ ihl ihr =>
      rw [hl.nodesAfter_append, ihl, Token.nodesAfter_additive ht, ihr]
      rfl
  | product hl ht _ ihl ihr =>
      rw [hl.nodesAfter_append, ihl, Token.nodesAfter_multiplicative ht, ihr]
      rfl
  | implied hl hr ihl ihr =>
      -- The product stands at the opening, in front of what the group holds.
      rw [hl.nodesAfter_append, ihl, Token.nodesAfter_implied hr.kind_opening, ihr]
      rfl
  | number ht =>
      rw [Token.nodesAfter_number ht, Expr.inorder_numberOperand]
      rfl
  | sign ht _ ih =>
      rw [Token.nodesAfter_additive ht, ih]
      rfl
  | emptyGroup ho hc => simp [Token.nodesAfter, Token.nodesBetween, ho, hc, Expr.inorder]
  | @fullGroup tokens n e opening closing ho h hc ih =>
      obtain ⟨t, others, htokens, ht⟩ := h.exists_head
      have hhead : (tokens ++ [closing]).head?.any (·.kind == .rparen) = false := by
        rw [htokens]
        simpa using ht
      rw [Token.nodesAfter_opening ho hhead, h.nodesAfter_append, ih, Token.nodesAfter_closing hc,
        List.append_nil]

end Derives

/-- Read from left to right, the tree of a sequence is what its tokens stand for. -/
theorem Expr.inorder_of_parse {s : TokenSequence} (hbody : ∀ t ∈ s.body, t.kind ≠ .eof)
    {room : Nat} {limit : Int} {e : Expr} (h : Expr.parse room limit s = .ok e) :
    e.inorder = Token.nodes s.body := by
  obtain ⟨n, hderives⟩ := Expr.derives_of_parse hbody h
  exact hderives.nodesAfter_eq.symm

/-! ## Where the nodes stand -/

namespace Token

/-- The nodes of a token stand where it does. -/
theorem pos_of_mem_nodesBetween {afterOperand : Bool} {after? : Option Token} {t : Token}
    {node : Node} (h : node ∈ t.nodesBetween afterOperand after?) : node.pos = some t.pos := by
  unfold nodesBetween at h
  simp only at h
  split at h
  case h_6 =>
    rcases List.mem_append.mp h with h | h
    all_goals
      split at h
      · rw [List.mem_singleton.mp h]
      · cases h
  case h_7 => cases h
  all_goals rw [List.mem_singleton.mp h]

/-- The nodes of some tokens stand where these do. -/
theorem exists_pos_of_mem_nodesAfter {afterOperand : Bool} {tokens : List Token} {node : Node}
    (h : node ∈ nodesAfter afterOperand tokens) : ∃ t ∈ tokens, node.pos = some t.pos := by
  induction tokens generalizing afterOperand with
  | nil => cases h
  | cons t rest ih =>
      rcases List.mem_append.mp h with h | h
      · exact ⟨t, List.mem_cons_self, pos_of_mem_nodesBetween h⟩
      · obtain ⟨t', ht', hpos⟩ := ih h
        exact ⟨t', List.mem_cons_of_mem t ht', hpos⟩

/-- Where tokens stand at ever later positions, no node comes after a later one. -/
theorem pairwise_notAfter_nodesAfter {tokens : List Token}
    (h : (tokens.map Token.pos).Pairwise Position.Before) (afterOperand : Bool) :
    (nodesAfter afterOperand tokens).Pairwise Node.NotAfter := by
  induction tokens generalizing afterOperand with
  | nil => exact List.Pairwise.nil
  | cons t rest ih =>
      rw [List.map_cons, List.pairwise_cons] at h
      rw [nodesAfter, List.pairwise_append]
      refine ⟨?_, ih h.2 t.endsOperand, ?_⟩
      · apply List.pairwise_of_forall_mem_list
        intro first hfirst second hsecond
        exact ⟨t.pos, t.pos, pos_of_mem_nodesBetween hfirst, pos_of_mem_nodesBetween hsecond, .inl rfl⟩
      · intro first hfirst second hsecond
        obtain ⟨t', ht', hpos⟩ := exists_pos_of_mem_nodesAfter hsecond
        have hbefore : t.pos.Before t'.pos := h.1 t'.pos (List.mem_map_of_mem ht')
        exact ⟨t.pos, t'.pos, pos_of_mem_nodesBetween hfirst, hpos, .inr hbefore⟩

/-- The tokens of a text stand at ever later positions. -/
theorem pairwise_before_of_scan {source : String} {s : TokenSequence} (h : scan source = .ok s) :
    (s.body.map Token.pos).Pairwise Position.Before := by
  obtain ⟨segments, last, -, hsegmented⟩ := hasSegments_of_scanFrom h
  have hall := hsegmented.pairwise_before
  rw [TokenSequence.toList, List.map_append] at hall
  exact (List.pairwise_append.mp hall).1

end Token

/-- For every list of tokens whose only end mark is the last one, every limit and every room for calls: if
the list is parsed, the nodes of the tree from left to right are what the tokens stand for, in the order of
the tokens. The positions of the nodes of a text never go back. -/
theorem parse_visits_tokens_in_order :
    (∀ (body : List Token) (mark : Token) (room : Nat) (limit : Int) (s : TokenSequence) (e : Expr),
      (∀ t ∈ body, t.kind ≠ .eof) → mark.kind = .eof →
      TokenSequence.ofList? (body ++ [mark]) = some s → Expr.parse room limit s = .ok e →
      e.inorder = Token.nodes body) ∧
    ∀ (source : String) (room : Nat) (limit : Int) (s : TokenSequence) (e : Expr),
      Token.scan source = .ok s → Expr.parse room limit s = .ok e →
      e.inorder = Token.nodes s.body ∧ e.inorder.Pairwise Node.NotAfter := by
  constructor
  · intro body mark room limit s e hbody hmark hs hparse
    rw [TokenSequence.ofList?_append_mark hbody hmark, Option.some.injEq] at hs
    subst hs
    exact Expr.inorder_of_parse hbody hparse
  · intro source room limit s e hscan hparse
    have hbody : ∀ t ∈ s.body, t.kind ≠ .eof :=
      fun t ht => ((Token.standsIn_of_scanFrom hscan).2 t ht).1
    have hnodes := Expr.inorder_of_parse hbody hparse
    refine ⟨hnodes, ?_⟩
    rw [hnodes]
    exact Token.pairwise_notAfter_nodesAfter (Token.pairwise_before_of_scan hscan) false

/-- The tokens of `2(-3)()` stand for two factors, a sign, an empty group and the two products at the
openings; and on the two lines of `-()` and `()` the second product and its empty group share a position. -/
theorem parse_visits_tokens_in_order_two_products :
    let body : List Token := [⟨.number, ⟨1, 1⟩, some 2⟩, ⟨.lparen, ⟨1, 2⟩, none⟩,
      ⟨.minus, ⟨1, 3⟩, none⟩, ⟨.number, ⟨1, 4⟩, some 3⟩, ⟨.rparen, ⟨1, 5⟩, none⟩,
      ⟨.lparen, ⟨1, 6⟩, none⟩, ⟨.rparen, ⟨1, 7⟩, none⟩]
    let mark : Token := ⟨.eof, ⟨1, 8⟩, none⟩
    (∃ s e, TokenSequence.ofList? (body ++ [mark]) = some s ∧ Expr.parse 16 1 s = .ok e ∧
      e.inorder = [⟨.number 2, some ⟨1, 1⟩⟩, ⟨.operation .times, some ⟨1, 2⟩⟩,
        ⟨.sign .minus, some ⟨1, 3⟩⟩, ⟨.number 3, some ⟨1, 4⟩⟩, ⟨.operation .times, some ⟨1, 6⟩⟩,
        ⟨.empty, some ⟨1, 6⟩⟩]) ∧
    ∃ s e, Token.scan "-()\n()" = .ok s ∧ Expr.parse 11 0 s = .ok e ∧
      e.inorder = [⟨.sign .minus, some ⟨1, 1⟩⟩, ⟨.empty, some ⟨1, 2⟩⟩,
        ⟨.operation .times, some ⟨2, 1⟩⟩, ⟨.empty, some ⟨2, 1⟩⟩] ∧
      e.inorder.Pairwise Node.NotAfter := by
  intro body mark
  constructor
  · have hbody : ∀ t ∈ body, t.kind ≠ .eof := by decide
    exact ⟨_, _, rfl, rfl, parse_visits_tokens_in_order.1 body mark 16 1 _ _ hbody rfl rfl rfl⟩
  · have hsymbol (p : Position) (cs : List Char) :
        (Token.scanFrom p ('-' :: cs) =
          (Token.scanFrom (p.after '-') cs).map (.cons ⟨.minus, p, none⟩)) ∧
        (Token.scanFrom p ('(' :: cs) =
          (Token.scanFrom (p.after '(') cs).map (.cons ⟨.lparen, p, none⟩)) ∧
        Token.scanFrom p (')' :: cs) =
          (Token.scanFrom (p.after ')') cs).map (.cons ⟨.rparen, p, none⟩) := by
      refine ⟨?_, ?_, ?_⟩ <;> exact Token.scanFrom_symbol p cs (by decide) (by decide) (by decide) rfl
    have hscan : Token.scan "-()\n()" = .ok ⟨[⟨.minus, ⟨1, 1⟩, none⟩, ⟨.lparen, ⟨1, 2⟩, none⟩,
        ⟨.rparen, ⟨1, 3⟩, none⟩, ⟨.lparen, ⟨2, 1⟩, none⟩, ⟨.rparen, ⟨2, 2⟩, none⟩], ⟨2, 3⟩⟩ := by
      show Token.scanFrom .start ['-', '(', ')', '\n', '(', ')'] = _
      simp only [hsymbol, Token.scanFrom_gap _ _ (rfl : Token.isGap '\n' = true), Token.scanFrom]
      rfl
    obtain ⟨hnodes, hpositions⟩ := parse_visits_tokens_in_order.2 _ 11 0 _ _ hscan rfl
    exact ⟨_, _, hscan, rfl, hnodes, hpositions⟩

end Calculator
