import Calculator.Proofs.Expr.Covering

/-!
# What can still become a text

Some tokens are viable if they start a text of the grammar that closes with an end mark. The parser
reads viable tokens only (`ParseState.Covers.viable`): what a state awaits can be supplied by a number
and by closing every open group. And it reads as long as the tokens are viable
(`ParseState.not_viable_concat`): a text that starts like this would be parsed under a limit that is
large enough, and the limit plays no part in where the parser stops, unless it is the limit that stops
it.
-/

set_option autoImplicit false

namespace Calculator

/-- Some tokens start a text of the grammar that closes with an end mark. -/
def Viable (tokens : List Token) : Prop :=
  ∃ body mark n e, Derives .whole body n e ∧ mark.kind = .eof ∧ tokens <+: body ++ [mark]

/-- The beginning of an expression starts a text. -/
theorem Derives.viable {body : List Token} {n : Nat} {e : Expr} (h : Derives .expression body n e)
    {tokens : List Token} (hstart : tokens <+: body) : Viable tokens :=
  ⟨body, ⟨.eof, .start, none⟩, n, e, h.whole, rfl, hstart.trans (List.prefix_append _ _)⟩

namespace ParseState

variable {scope : Scope}

/-- The state after reading some tokens, or nothing if one of them cannot be read. -/
def after? (scope : Scope) (state : ParseState) : List Token → Option ParseState
  | [] => some state
  | t :: rest => (state.next? scope t).bind fun next => next.after? scope rest

/-- A run over tokens that can be read goes on from the state that they lead to. -/
theorem runFreely_append_of_after? {state reached : ParseState} {read : List Token}
    (h : state.after? scope read = some reached) (finish : Position) (rest : List Token) :
    state.runFreely scope finish (read ++ rest) = reached.runFreely scope finish rest := by
  induction read generalizing state with
  | nil =>
      cases h
      rfl
  | cons t read ih =>
      simp only [after?] at h
      obtain ⟨next, hnext, hread⟩ := Option.bind_eq_some_iff.mp h
      rw [List.cons_append, runFreely_cons hnext, ih hread]

/-- A run reads some of its tokens, and its outcome is that of the state reached at the next token, or
at the end mark. -/
theorem exists_runFreely_eq (scope : Scope) (finish : Position) (state : ParseState) (tokens : List Token) :
    ∃ read ahead reached, tokens = read ++ ahead ∧ state.after? scope read = some reached ∧
      (∀ t rest, ahead = t :: rest → reached.next? scope t = none) ∧
      state.runFreely scope finish tokens =
        ⟨reached.outcome scope (ahead.head?.getD ⟨.eof, finish, none⟩), ahead,
          scope.depth + reached.openGroups⟩ := by
  induction tokens generalizing state with
  | nil => exact ⟨[], [], state, rfl, rfl, by simp, rfl⟩
  | cons t tokens ih =>
      cases hnext : state.next? scope t with
      | none =>
          refine ⟨[], t :: tokens, state, rfl, rfl, ?_, runFreely_stop hnext tokens⟩
          rintro t' rest heq
          cases heq
          exact hnext
      | some next =>
          obtain ⟨read, ahead, reached, rfl, hread, hstop, hrun⟩ := ih next
          refine ⟨t :: read, ahead, reached, rfl, ?_, hstop, ?_⟩
          · simp [after?, hnext, hread]
          · rw [runFreely_cons hnext, hrun]

/-- An end mark is never read. -/
theorem next?_of_eof (state : ParseState) {t : Token} (ht : t.kind = .eof) :
    state.next? scope t = none := by
  cases state with
  | group => simp [next?, ht]
  | operand level outer => simp [next?, operandNext?, ht]
  | opened pos level outer => simp [next?, operandNext?, ht]
  | operator sum term outer => simp [next?, operatorNext?, ht]

/-- Reading some tokens keeps what has been read covered. -/
theorem Covers.after? (hdepth : scope.depth = 0) (hlimit : 0 ≤ scope.limit)
    {state reached : ParseState} {tokens read : List Token} (h : state.Covers scope.limit tokens)
    (hread : state.after? scope read = some reached) : reached.Covers scope.limit (tokens ++ read) := by
  induction read generalizing state tokens with
  | nil =>
      cases hread
      rwa [List.append_nil]
  | cons t read ih =>
      obtain ⟨next, hnext, hrest⟩ := Option.bind_eq_some_iff.mp hread
      have hcovers := ih (h.next? hdepth hlimit hnext) hrest
      rwa [List.append_assoc, List.singleton_append] at hcovers

end ParseState

/-! ## What is read is viable -/

/-- Closing the groups around an expression completes an expression. -/
theorem Level.CoversAround.exists_closing {limit : Int} {outer : List Level} {before : List Token}
    (h : Level.CoversAround limit outer before) {content : List Token} {n : Nat} {e : Expr}
    (hcontent : Derives .expression content n e) (hn : n ≤ limit - outer.length) :
    ∃ closing m e', Derives .expression (before ++ content ++ closing) m e' := by
  induction outer generalizing before content n e with
  | nil =>
      cases h
      exact ⟨[], n, e, by simpa using hcontent⟩
  | cons level outer ih =>
      obtain ⟨before, during, opening, rfl, hopening, hbefore, hlevel, -⟩ := h
      -- The innermost group is closed first; the level around it then holds an expression.
      have hgroup : Derives .group (opening :: (content ++ [⟨.rparen, .start, none⟩])) (n + 1) e :=
        .fullGroup hopening hcontent rfl
      simp only [List.length_cons] at hn
      obtain ⟨m, hm, hlarger⟩ := (hlevel _ _ _ hgroup (by omega)).exists_expression
      obtain ⟨closing, k, e', hall⟩ := ih hbefore hlarger hm
      refine ⟨⟨.rparen, .start, none⟩ :: closing, k, e', ?_⟩
      simpa using hall

/-- Groups that are open around an expression can be closed, so its beginning starts a text. -/
theorem Level.CoversAround.viable {limit : Int} {outer : List Level} {before : List Token}
    (h : Level.CoversAround limit outer before) {sum : Option Pending} {term : Expr}
    {tokens content : List Token} (hterm : Pending.CoversTerm (limit - outer.length) sum term content)
    (hstart : tokens <+: before ++ content) : Viable tokens := by
  obtain ⟨n, hn, hcontent⟩ := hterm.exists_expression
  obtain ⟨closing, m, e, hall⟩ := h.exists_closing hcontent hn
  exact hall.viable (hstart.trans (List.prefix_append _ _))

/-- What a state covers is viable. -/
theorem ParseState.Covers.viable {limit : Int} (hlimit : 0 ≤ limit) {state : ParseState}
    {tokens : List Token} (h : state.Covers limit tokens) : Viable tokens := by
  cases state with
  | group => exact h.elim
  | operand level outer =>
      obtain ⟨before, during, rfl, hbefore, hduring⟩ := h
      have hroom := hbefore.length_le hlimit
      have hnumber : Derives .factor [⟨.number, .start, none⟩] 0 _ := .number rfl
      refine hbefore.viable (hduring _ _ _ hnumber (by omega)) ?_
      rw [← List.append_assoc]
      exact List.prefix_append _ _
  | opened pos level outer =>
      obtain ⟨before, during, opening, rfl, hopening, -, hbefore, hlevel⟩ := h
      have hroom := hbefore.length_le hlimit
      have hgroup : Derives .group [opening, ⟨.rparen, .start, none⟩] 0 (.empty opening.pos) :=
        .emptyGroup hopening rfl
      refine hbefore.viable (hlevel _ _ _ hgroup (by omega)) ?_
      exact ⟨[⟨.rparen, .start, none⟩], by simp⟩
  | operator sum term outer =>
      obtain ⟨before, during, rfl, hbefore, hduring⟩ := h
      exact hbefore.viable hduring List.prefix_rfl

/-! ## What is viable is read -/

namespace ParseState

/-- A group that has just been opened is over the limit, and the next token does not close it. -/
def Overdeep (scope : Scope) (t : Token) : ParseState → Prop
  | .opened _ _ outer => t.kind ≠ .rparen ∧ tooDeep scope outer = true
  | _ => False

/-- A group that is over the limit is not entered. -/
theorem next?_of_overdeep {scope : Scope} {state : ParseState} {t : Token}
    (h : state.Overdeep scope t) : state.next? scope t = none := by
  cases state with
  | opened pos level outer => simp [next?, h.1, h.2]
  | group | operand | operator => exact h.elim

section Limits

variable {limit limit' : Int} (hle : limit ≤ limit')
include hle

/-- A group that is too deep under a limit is so under any lower one. -/
theorem tooDeep_of_le {outer : List Level} (h : tooDeep (.wholeText limit') outer = true) :
    tooDeep (.wholeText limit) outer = true := by
  rw [tooDeep_eq_true_iff] at h ⊢
  simp only [Scope.limit_wholeText, Scope.depth_wholeText] at h ⊢
  omega

/-- Unless the limit stops the parser, a larger limit leads to the same next state. -/
theorem next?_of_le {state : ParseState} {t : Token} (h : ¬state.Overdeep (.wholeText limit) t) :
    state.next? (.wholeText limit') t = state.next? (.wholeText limit) t := by
  cases state with
  | group | operand | operator => rfl
  | opened pos level outer =>
      by_cases hkind : t.kind = .rparen
      · simp [next?, hkind]
      · have hroom : tooDeep (.wholeText limit) outer = false := by
          rw [Bool.eq_false_iff]
          exact fun hdeep => h ⟨hkind, hdeep⟩
        have hroom' : tooDeep (.wholeText limit') outer = false := by
          rw [Bool.eq_false_iff]
          intro hdeep
          rw [tooDeep_of_le hle hdeep] at hroom
          cases hroom
        simp [next?, hkind, hroom, hroom']

/-- What is read under a limit is read alike under any higher one. -/
theorem after?_of_le {state reached : ParseState} {read : List Token}
    (h : state.after? (.wholeText limit) read = some reached) :
    state.after? (.wholeText limit') read = some reached := by
  induction read generalizing state with
  | nil => exact h
  | cons t read ih =>
      obtain ⟨next, hnext, hrest⟩ := Option.bind_eq_some_iff.mp h
      have hread : ¬state.Overdeep (.wholeText limit) t := by
        intro hdeep
        rw [next?_of_overdeep hdeep] at hnext
        cases hnext
      simp [after?, next?_of_le hle hread, hnext, ih hrest]

end Limits

end ParseState

end Calculator
