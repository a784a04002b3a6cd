import Calculator.Proofs.Expr.Covering
import Calculator.Proofs.Outcome
import Calculator.Proofs.Program.Meaning

/-!
# Where trees and faults come from

Parsing takes every position from a token. A tree divides only where a slash stands, and a fault of
parsing stands at the token that cannot be read, or at the opening of the group that is too deep.
-/

set_option autoImplicit false

namespace Calculator

namespace TokenKind

/-- A plus or a minus is a sign. -/
theorem mem_signs_of_additive? {kind : TokenKind} {op : Operator} (h : kind.additive? = some op) :
    op ∈ Operator.signs := by
  unfold additive? at h
  split at h <;> cases h <;> decide

/-- A plus or a minus is an operation, and no division. -/
theorem mem_operations_of_additive? {kind : TokenKind} {op : Operator}
    (h : kind.additive? = some op) : op ∈ Operator.operations ∧ op ≠ .over := by
  unfold additive? at h
  split at h <;> cases h <;> decide

/-- A star or a slash is an operation, and only a slash is a division. -/
theorem mem_operations_of_multiplicative? {kind : TokenKind} {op : Operator}
    (h : kind.multiplicative? = some op) : op ∈ Operator.operations ∧ (op = .over → kind = .slash) := by
  unfold multiplicative? at h
  split at h <;> cases h <;> simp [Operator.operations]

end TokenKind

/-- A number token that has a value is a number. -/
theorem ParseState.numberOperand_eq {t : Token} (h : t.value.isSome) :
    ∃ value, numberOperand t = .number value t.pos := by
  obtain ⟨value, hvalue⟩ := Option.isSome_iff_exists.mp h
  exact ⟨value, by simp [numberOperand, hvalue]⟩

namespace Derives

variable {phrase : Phrase} {tokens : List Token} {n : Nat} {e : Expr}

/-- Where every number has a value, the tree of a phrase belongs to the language. -/
theorem arithmetic (h : Derives phrase tokens n e)
    (hvalue : ∀ t ∈ tokens, t.kind = .number → t.value.isSome) : e.Arithmetic := by
  induction h with
  | whole _ ih | term _ ih | factor _ ih | group _ ih => exact ih hvalue
  | sum _ ht _ ihl ihr =>
      exact .binary _ (TokenKind.mem_operations_of_additive? ht).1
        (ihl fun t h => hvalue t (by simp [h])) (ihr fun t h => hvalue t (by simp [h]))
  | product _ ht _ ihl ihr =>
      exact .binary _ (TokenKind.mem_operations_of_multiplicative? ht).1
        (ihl fun t h => hvalue t (by simp [h])) (ihr fun t h => hvalue t (by simp [h]))
  | implied _ _ ihl ihr =>
      exact .binary _ (by decide)
        (ihl fun t h => hvalue t (by simp [h])) (ihr fun t h => hvalue t (List.mem_append_right _ h))
  | @number t ht =>
      obtain ⟨value, heq⟩ := ParseState.numberOperand_eq (hvalue t (by simp) ht)
      rw [heq]
      exact .number value t.pos
  | sign ht _ ih =>
      exact .unary _ (TokenKind.mem_signs_of_additive? ht) (ih fun t h => hvalue t (by simp [h]))
  | emptyGroup ho hc => exact .empty _
  | fullGroup ho _ hc ih => exact ih fun t h => hvalue t (by simp [h])

/-- A tree divides by zero only where a slash stands. -/
theorem exists_slash_of_mem_zeroDivisions (h : Derives phrase tokens n e) {pos : Position}
    (hpos : pos ∈ e.zeroDivisions) : ∃ t ∈ tokens, t.kind = .slash ∧ t.pos = pos := by
  induction h with
  | whole _ ih | term _ ih | factor _ ih | group _ ih => exact ih hpos
  | @sum first second n m left right t op hl ht hr ihl ihr =>
      simp only [Expr.zeroDivisions, List.mem_append] at hpos
      rcases hpos with hpos | hpos | hpos
      · obtain ⟨t', ht', hslash⟩ := ihl hpos
        exact ⟨t', by simp [ht'], hslash⟩
      · obtain ⟨t', ht', hslash⟩ := ihr hpos
        exact ⟨t', by simp [ht'], hslash⟩
      · simp [(TokenKind.mem_operations_of_additive? ht).2] at hpos
  | @product first second n m left right t op hl ht hr ihl ihr =>
      simp only [Expr.zeroDivisions, List.mem_append] at hpos
      rcases hpos with hpos | hpos | hpos
      · obtain ⟨t', ht', hslash⟩ := ihl hpos
        exact ⟨t', by simp [ht'], hslash⟩
      · obtain ⟨t', ht', hslash⟩ := ihr hpos
        exact ⟨t', by simp [ht'], hslash⟩
      · split at hpos
        · next hover =>
          refine ⟨t, by simp, (TokenKind.mem_operations_of_multiplicative? ht).2 hover.1, ?_⟩
          exact (List.mem_singleton.mp hpos).symm
        · cases hpos
  | @implied first second n m left right opening hl hr ihl ihr =>
      simp only [Expr.zeroDivisions, List.mem_append] at hpos
      rcases hpos with hpos | hpos | hpos
      · obtain ⟨t', ht', hslash⟩ := ihl hpos
        exact ⟨t', by simp [ht'], hslash⟩
      · obtain ⟨t', ht', hslash⟩ := ihr hpos
        exact ⟨t', List.mem_append_right _ ht', hslash⟩
      · simp at hpos
  | @number t ht =>
      unfold ParseState.numberOperand at hpos
      split at hpos <;> cases hpos
  | sign ht _ ih =>
      obtain ⟨t', ht', hslash⟩ := ih hpos
      exact ⟨t', by simp [ht'], hslash⟩
  | emptyGroup ho hc => cases hpos
  | fullGroup ho _ hc ih =>
      obtain ⟨t', ht', hslash⟩ := ih hpos
      exact ⟨t', by simp [ht'], hslash⟩

end Derives

/-! ## Faults of parsing -/

/-- A fault of parsing comes from some tokens: it is that of a token which cannot stand where it
stands, or of a group that is too deep. -/
def Fault.ComesFrom (limit : Int) (tokens : List Token) (fault : Fault) : Prop :=
  ∃ t ∈ tokens, (∃ expected, fault = t.unexpected expected) ∨
    t.kind = .lparen ∧ fault = ⟨.nestingTooDeep limit, some t.pos⟩

namespace ParseState

/-- A group that has just been opened was opened by one of the tokens read. -/
def OpenedBy (tokens : List Token) : ParseState → Prop
  | .opened pos _ _ => ∃ t ∈ tokens, t.kind = .lparen ∧ t.pos = pos
  | _ => True

/-- Where an operand is awaited, a group is opened by the token that is read. -/
theorem openedBy_operandNext? {level : Level} {outer : List Level} {t : Token} {next : ParseState}
    (h : operandNext? level outer t = some next) {tokens : List Token} (ht : t ∈ tokens) :
    next.OpenedBy tokens := by
  unfold operandNext? at h
  split at h <;> cases h
  · trivial
  · trivial
  · trivial
  · next hkind => exact ⟨t, ht, hkind, rfl⟩

/-- After a term, a group is opened by the token that is read. -/
theorem openedBy_operatorNext? {sum : Option Pending} {term : Expr} {outer : List Level} {t : Token}
    {next : ParseState} (h : operatorNext? sum term outer t = some next) {tokens : List Token}
    (ht : t ∈ tokens) : next.OpenedBy tokens := by
  unfold operatorNext? at h
  simp only at h
  split at h <;> cases h
  · trivial
  · trivial
  · trivial
  · trivial
  · next hkind => exact ⟨t, ht, hkind, rfl⟩
  · trivial

/-- A group is opened by the token that is read. -/
theorem openedBy_next? {scope : Scope} {state next : ParseState} {t : Token}
    (h : state.next? scope t = some next) {tokens : List Token} (ht : t ∈ tokens) :
    next.OpenedBy tokens := by
  cases state with
  | group =>
      simp only [next?] at h
      split at h <;> cases h
      next hkind => exact ⟨t, ht, hkind, rfl⟩
  | operand level outer => exact openedBy_operandNext? h ht
  | opened pos level outer =>
      simp only [next?] at h
      split at h
      · cases h
        trivial
      · split at h
        · cases h
        · exact openedBy_operandNext? h ht
  | operator sum term outer =>
      simp only [next?] at h
      split at h
      · cases h
      · exact openedBy_operatorNext? h ht

/-- Where a run meets a fault, the fault comes from the token there or from the opening before it. -/
theorem comesFrom_of_outcome {scope : Scope} {state : ParseState} {t : Token} {fault : Fault}
    {tokens : List Token} (hopened : state.OpenedBy tokens) (ht : t ∈ tokens)
    (h : state.outcome scope t = .error fault) : fault.ComesFrom scope.limit tokens := by
  cases state with
  | group | operand level outer =>
      cases h
      exact ⟨t, ht, .inl ⟨_, rfl⟩⟩
  | opened pos level outer =>
      obtain ⟨opening, hopening, hkind, rfl⟩ := hopened
      simp only [outcome] at h
      split at h <;> cases h
      · exact ⟨opening, hopening, .inr ⟨hkind, rfl⟩⟩
      · exact ⟨t, ht, .inl ⟨_, rfl⟩⟩
  | operator sum term outer =>
      simp only [outcome] at h
      split at h <;> cases h
      exact ⟨t, ht, .inl ⟨_, rfl⟩⟩

/-- A run that meets a fault names one of its tokens, the end mark included. -/
theorem comesFrom_of_runFreely {scope : Scope} {finish : Position} {fault : Fault} {tokens : List Token}
    (hmark : ⟨.eof, finish, none⟩ ∈ tokens) {state : ParseState} (hopened : state.OpenedBy tokens)
    {rest : List Token} (hrest : rest ⊆ tokens)
    (h : (state.runFreely scope finish rest).outcome = .error fault) :
    fault.ComesFrom scope.limit tokens := by
  induction rest generalizing state with
  | nil => exact comesFrom_of_outcome hopened hmark h
  | cons t rest ih =>
      have ht : t ∈ tokens := hrest (by simp)
      cases hnext : state.next? scope t with
      | none =>
          rw [runFreely_stop hnext] at h
          exact comesFrom_of_outcome hopened ht h
      | some next =>
          rw [runFreely_cons hnext] at h
          exact ih (openedBy_next? hnext ht) (fun t' ht' => hrest (by simp [ht'])) h

end ParseState

/-- A token that is no end mark is refused by its name. -/
theorem Token.unexpected_of_ne_eof {t : Token} (h : t.kind ≠ .eof) (expected : Option String) :
    t.unexpected expected = ⟨.unexpectedToken t.kind.name expected, some t.pos⟩ := by
  unfold Token.unexpected
  split
  · contradiction
  · rfl

/-- A fault that comes from a token stands at the token. -/
theorem Fault.pos_eq_of_culprit {fault : Fault} {limit : Int} {t : Token}
    (h : (∃ expected, fault = t.unexpected expected) ∨
      t.kind = .lparen ∧ fault = ⟨.nestingTooDeep limit, some t.pos⟩) : fault.pos = some t.pos := by
  rcases h with ⟨expected, rfl⟩ | ⟨-, rfl⟩
  · unfold Token.unexpected
    split <;> rfl
  · rfl

/-- With room for all calls, a fault of parsing a sequence comes from its tokens. -/
theorem Expr.comesFrom_of_parseFreely {limit : Int} {s : TokenSequence} {fault : Fault}
    (h : Expr.parseFreely limit s = .error fault) : fault.ComesFrom limit s.toList := by
  rw [Expr.parseFreely, Outcome.bind_eq_error_iff] at h
  rcases h with hrun | ⟨e, -, hclose⟩
  · have hmark : (⟨.eof, s.finish, none⟩ : Token) ∈ s.toList := by
      simp [TokenSequence.toList, TokenSequence.endMark]
    have hbody : s.body ⊆ s.toList := by simp [TokenSequence.toList]
    have hopened : (ParseState.operand .fresh []).OpenedBy s.toList := trivial
    exact ParseState.comesFrom_of_runFreely hmark hopened hbody hrun
  · -- The text goes on after a complete expression.
    have hahead := Expr.ahead_parseRun_subset limit s
    generalize Expr.parseRun limit s = stop at hahead hclose
    obtain ⟨outcome, ahead, depth⟩ := stop
    simp only [Parser.close] at hclose
    split at hclose
    · cases hclose
    · next hne =>
      cases hclose
      cases ahead with
      | nil => simp [Parser.current, Parser.resume] at hne
      | cons t rest =>
          have ht : t ∈ s.toList := List.mem_append_left _ (hahead (by simp))
          exact ⟨t, ht, .inl ⟨some "end of input", (Token.unexpected_of_ne_eof hne _).symm⟩⟩

/-- A fault of parsing a sequence comes from its tokens, or the calls do not fit and the text counts as
nested too deep at one of them. -/
theorem Expr.comesFrom_of_parse {room : Nat} {limit : Int} {s : TokenSequence} {fault : Fault}
    (h : Expr.parse room limit s = .error fault) :
    (Expr.CallsFit room limit s ∧ fault.ComesFrom limit s.toList) ∨
      ¬Expr.CallsFit room limit s ∧ ∃ t ∈ s.toList, fault = ⟨.nestingTooDeep limit, some t.pos⟩ := by
  rcases Expr.parse_eq_parseFreely_or room limit s with ⟨hfits, hfree⟩ | ⟨hover, t, ht, hfault⟩
  · rw [hfree] at h
    exact .inl ⟨hfits, Expr.comesFrom_of_parseFreely h⟩
  · rw [hfault] at h
    exact .inr ⟨hover, t, ht, (Except.error.inj h).symm⟩

/-- A fault of parsing a sequence stands at one of its tokens. -/
theorem Expr.exists_pos_of_parse {room : Nat} {limit : Int} {s : TokenSequence} {fault : Fault}
    (h : Expr.parse room limit s = .error fault) : ∃ t ∈ s.toList, fault.pos = some t.pos := by
  rcases Expr.comesFrom_of_parse h with ⟨-, t, ht, hfault⟩ | ⟨-, t, ht, rfl⟩
  · exact ⟨t, ht, Fault.pos_eq_of_culprit hfault⟩
  · exact ⟨t, ht, rfl⟩

end Calculator
