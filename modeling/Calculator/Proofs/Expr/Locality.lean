import Calculator.Proofs.Position.Independence
import Mathlib.Data.List.Basic

/-!
# A parser starts afresh with every phrase

A parser can be asked for one phrase after the other, also after faults, which leave it where it stopped with
some groups still counted as open. Whatever has been asked before, the next phrase is read as a fresh parser
reads it from the tokens that are left: the groups that count as open only take away from the limit.

The limit is looked at in one place, where a group is opened, and is compared with the groups that were open
before and those of the phrase itself. So a step of the parser is the same under both limits
(`ParseState.step?_eq_fresh`), and takes the same calls, hence a run is (`ParseState.run_eq_fresh`). The bounds
on the index need that the tokens ahead are the end part of the list that the index says (`Parser.StandsIn`),
which every phrase keeps.
-/

set_option autoImplicit false

namespace Calculator

/-! ## Faults under another limit -/

/-- A cause that names the given limit, if it names one. -/
def Cause.withLimit (limit : Int) : Cause → Cause
  | .nestingTooDeep _ => .nestingTooDeep limit
  | cause => cause

/-- A fault that names the given limit, if it names one. -/
def Fault.withLimit (limit : Int) (fault : Fault) : Fault :=
  { fault with cause := fault.cause.withLimit limit }

/-- A fault that is no matter of depth names no limit. -/
theorem Token.withLimit_unexpected (limit : Int) (t : Token) (expected : Option String) :
    (t.unexpected expected).withLimit limit = t.unexpected expected := by
  unfold Token.unexpected
  split <;> rfl

/-! ## Runs under another limit -/

namespace Scope

/-- The scope in which no group is open, and as many more may be opened. -/
def fresh (scope : Scope) : Scope := ⟨scope.goal, scope.limit - scope.depth, 0⟩

end Scope

namespace ParseState

variable (scope : Scope) (room : Nat) (groups : List Nat)

/-- A group is too deep exactly if it is so under what is left of the limit. -/
theorem tooDeep_eq_fresh (outer : List Level) : tooDeep scope outer = tooDeep scope.fresh outer := by
  rw [Bool.eq_iff_iff, tooDeep_eq_true_iff, tooDeep_eq_true_iff]
  simp only [Scope.fresh]
  omega

/-- A token is read as under what is left of the limit. -/
theorem next?_eq_fresh (state : ParseState) (t : Token) :
    state.next? scope t = state.next? scope.fresh t := by
  cases state with
  | group | operand level outer | operator sum term outer => rfl
  | opened pos level outer => simp only [next?, tooDeep_eq_fresh scope outer]

/-- A token takes the same calls as under what is left of the limit. -/
theorem callHeight_eq_fresh (state : ParseState) (t : Token) :
    state.callHeight scope groups t = state.callHeight scope.fresh groups t := by
  have hterm : scope.termCalls groups = scope.fresh.termCalls groups := by cases groups <;> rfl
  cases state with
  | group => rfl
  | operand level outer => simp only [callHeight, hterm]
  | opened pos level outer => simp only [callHeight, hterm, tooDeep_eq_fresh scope outer]
  | operator sum term outer =>
      simp only [callHeight, hterm]
      rfl

/-- A step is the same under what is left of the limit. -/
theorem step?_eq_fresh (state : ParseState) (t : Token) :
    state.step? room scope groups t = state.step? room scope.fresh groups t := by
  rw [step?, step?, callHeight_eq_fresh, next?_eq_fresh]

/-- The open groups take the same calls as under what is left of the limit. -/
theorem groupsAfter_eq_fresh (state : ParseState) (t : Token) :
    state.groupsAfter scope groups t = state.groupsAfter scope.fresh groups t := by
  have hterm : scope.termCalls groups = scope.fresh.termCalls groups := by cases groups <;> rfl
  rw [groupsAfter, groupsAfter, hterm]

/-- The outcome at a token is the same under what is left of the limit, but for the limit it names. -/
theorem outcome_eq_fresh (state : ParseState) (t : Token) :
    state.outcome scope t =
      (state.outcome scope.fresh t).mapError (Fault.withLimit scope.limit) := by
  cases state with
  | group | operand level outer =>
      exact congrArg Except.error (Token.withLimit_unexpected scope.limit t _).symm
  | opened pos level outer =>
      simp only [outcome, tooDeep_eq_fresh scope outer]
      split
      · rfl
      · exact congrArg Except.error (Token.withLimit_unexpected scope.limit t _).symm
  | operator sum term outer =>
      simp only [outcome]
      split
      · rfl
      · exact congrArg Except.error (Token.withLimit_unexpected scope.limit t _).symm

end ParseState

/-- Where a run stops, with faults that name the given limit and some more groups open. -/
def ParseStop.under (limit : Int) (depth : Nat) (stop : ParseStop (Option (Except Fault Expr))) :
    ParseStop (Option (Except Fault Expr)) :=
  ⟨stop.outcome.map (Except.mapError (Fault.withLimit limit)), stop.ahead, depth + stop.depth⟩

namespace ParseState

variable (scope : Scope) (room : Nat)

/-- Stopping at a token with some groups open is stopping there with none open. -/
theorem stop_eq_fresh (groups : List Nat) (state : ParseState) (t : Token) (ahead : List Token) :
    state.stop room scope groups t ahead =
      (state.stop room scope.fresh groups t ahead).under scope.limit scope.depth := by
  unfold stop
  rw [callHeight_eq_fresh, outcome_eq_fresh scope state t]
  split <;> simp only [ParseStop.under, Scope.fresh, Nat.zero_add, Option.map_some, Option.map_none]

/-- A run with some groups open is a run with none open under what is left of the limit. -/
theorem run_eq_fresh (finish : Position) (groups : List Nat) (state : ParseState)
    (tokens : List Token) :
    state.run room scope finish groups tokens =
      (state.run room scope.fresh finish groups tokens).under scope.limit scope.depth := by
  induction tokens generalizing state groups with
  | nil => exact stop_eq_fresh scope room groups state _ []
  | cons t rest ih =>
      rw [run, run, step?_eq_fresh, groupsAfter_eq_fresh]
      cases state.step? room scope.fresh groups t with
      | none => exact stop_eq_fresh scope room groups state t (t :: rest)
      | some next => exact ih _ next

/-! ## What a run leaves -/

variable {scope room} {finish : Position} {groups : List Nat} {state : ParseState} {e : Expr}

/-- Where a phrase is complete, no group is open. -/
theorem openGroups_of_outcome {t : Token} (h : state.outcome scope t = .ok e) :
    state.openGroups = 0 := by
  cases state with
  | group | operand level outer => cases h
  | opened pos level outer =>
      simp only [outcome] at h
      split at h <;> cases h
  | operator sum term outer =>
      cases outer with
      | nil => rfl
      | cons level outer => cases h

/-- Stopping closes no group that was open before the run. -/
theorem le_depth_stop (t : Token) (ahead : List Token) :
    scope.depth ≤ (state.stop room scope groups t ahead).depth := by
  unfold stop
  split <;> exact Nat.le_add_right scope.depth _

/-- A run closes no group that was open before it. -/
theorem le_depth_run (tokens : List Token) :
    scope.depth ≤ (state.run room scope finish groups tokens).depth := by
  induction tokens generalizing state groups with
  | nil => exact le_depth_stop _ []
  | cons t rest ih =>
      rw [run]
      split
      · exact ih
      · exact le_depth_stop t (t :: rest)

/-- What a run leaves is an end part of its tokens. -/
theorem ahead_run_suffix (tokens : List Token) :
    (state.run room scope finish groups tokens).ahead <:+ tokens := by
  by_cases hfits : ∀ height ∈ state.heights scope finish groups tokens, height ≤ room
  · rw [run_eq_runFreely tokens hfits]
    exact ahead_runFreely_suffix state tokens
  · rw [(run_of_overflow tokens (by simpa using hfits)).2]
    exact List.drop_suffix _ tokens

/-- A run that completes has closed every group that it opened. -/
theorem depth_run_of_ok {tokens : List Token}
    (h : (state.run room scope finish groups tokens).outcome = some (.ok e)) :
    (state.run room scope finish groups tokens).depth = scope.depth := by
  obtain ⟨hfits, houtcome⟩ := (outcome_run_eq_some_iff tokens _).mp h
  obtain ⟨read, ahead, reached, -, -, -, hrun⟩ := exists_runFreely_eq scope finish state tokens
  rw [run_eq_runFreely tokens hfits]
  rw [hrun] at houtcome ⊢
  simp only [openGroups_of_outcome houtcome, Nat.add_zero]

end ParseState

/-- No phrase is complete before a token has been read. -/
theorem Phrase.outcome_start_ne_ok (phrase : Phrase) (scope : Scope) (t : Token) (e : Expr) :
    phrase.start.outcome scope t ≠ .ok e := by
  cases phrase <;> simp [Phrase.start, ParseState.outcome]

/-- A run that completes a phrase has read a token. -/
theorem Phrase.length_ahead_lt_of_ok {phrase : Phrase} {scope : Scope} {finish : Position} {room : Nat}
    {groups : List Nat} {tokens : List Token} {e : Expr}
    (h : (phrase.start.run room scope finish groups tokens).outcome = some (.ok e)) :
    (phrase.start.run room scope finish groups tokens).ahead.length < tokens.length := by
  obtain ⟨hfits, houtcome⟩ := (ParseState.outcome_run_eq_some_iff tokens _).mp h
  obtain ⟨read, ahead, reached, hsplit, hread, -, hrun⟩ :=
    ParseState.exists_runFreely_eq scope finish phrase.start tokens
  rw [ParseState.run_eq_runFreely tokens hfits]
  rw [hrun] at houtcome ⊢
  cases read with
  | nil =>
      cases hread
      exact absurd houtcome (phrase.outcome_start_ne_ok scope _ e)
  | cons t read =>
      rw [hsplit, List.length_append, List.length_cons]
      simp only
      omega

/-! ## One phrase -/

/-- How many calls fit for the run of a phrase: a whole text takes one to call for its expression. -/
def Phrase.runRoom (room : Nat) : Phrase → Nat
  | .whole => room - 1
  | _ => room

namespace Parser

variable (room : Nat) (p : Parser) (phrase : Phrase)

/-- The run of a parser over the tokens ahead. -/
def phraseRun : ParseStop (Option (Except Fault Expr)) := p.stop (phrase.runRoom room) phrase

/-- What a phrase makes of where its run stops. -/
def phraseOutcome (p : Parser) : Phrase → Option (Except Fault Expr) → Option (Except Fault Expr)
  | .whole, outcome => some (p.conclude outcome)
  | _, outcome => outcome

/-- Reading a phrase is the run over the tokens ahead, and what the phrase makes of where it stops. -/
theorem read_eq :
    p.read room phrase =
      ((p.resume (p.phraseRun room phrase)).phraseOutcome phrase (p.phraseRun room phrase).outcome,
        p.resume (p.phraseRun room phrase)) := by
  cases phrase <;> rfl

variable {room p phrase}

/-- A whole text concludes with a tree only if its run does. -/
theorem eq_some_of_conclude {outcome : Option (Except Fault Expr)} {e : Expr}
    (h : p.conclude outcome = .ok e) : outcome = some (.ok e) := by
  cases outcome with
  | none => cases h
  | some outcome =>
      cases outcome with
      | error fault => cases h
      | ok e' =>
          simp only [conclude, Except.bind, close] at h
          split at h
          · rw [h]
          · cases h

/-- A phrase that is read has been completed by its run. -/
theorem outcome_phraseRun_of_read {e : Expr} (h : (p.read room phrase).1 = some (.ok e)) :
    (p.phraseRun room phrase).outcome = some (.ok e) := by
  rw [read_eq] at h
  cases phrase with
  | whole => exact eq_some_of_conclude (Option.some.inj h)
  | expression | term | factor | group => exact h

variable (room p phrase)

/-- A phrase never goes back. -/
theorem consumed_le_consumed_read : p.consumed ≤ (p.read room phrase).2.consumed := by
  rw [read_eq]
  exact Nat.le_add_right p.consumed _

/-- A phrase closes no group that was open before it. -/
theorem depth_le_depth_read : p.depth ≤ (p.read room phrase).2.depth := by
  have hrun : (⟨phrase.goal, p.limit, p.depth⟩ : Scope).depth ≤ (p.phraseRun room phrase).depth :=
    ParseState.le_depth_run p.ahead
  rw [read_eq]
  exact hrun

variable {room p phrase}

/-- A phrase that is read takes a token at least, and leaves no group open. -/
theorem consumed_lt_of_read {e : Expr} (h : (p.read room phrase).1 = some (.ok e)) :
    p.consumed < (p.read room phrase).2.consumed ∧ (p.read room phrase).2.depth = p.depth := by
  have hrun := outcome_phraseRun_of_read h
  have hlength : (p.phraseRun room phrase).ahead.length < p.ahead.length :=
    Phrase.length_ahead_lt_of_ok hrun
  rw [read_eq]
  refine ⟨?_, ParseState.depth_run_of_ok hrun⟩
  simp only [resume]
  omega

/-! ## The same phrase on a fresh parser -/

/-- A fresh parser of the tokens ahead, under what is left of the limit. -/
def renewed (p : Parser) : Parser := ofSequence ⟨p.ahead, p.finish⟩ (p.limit - p.depth)

/-- What a whole text demands of the token after it depends on that token alone, and names no limit. -/
theorem close_eq_mapError {p q : Parser} (h : p.current = q.current) (limit : Int) (e : Expr) :
    p.close e = (q.close e).mapError (Fault.withLimit limit) := by
  unfold close
  rw [h]
  split <;> rfl

/-- What a phrase makes of where its run stops depends on the token there, and on the limit only as far as
a fault names it. -/
theorem phraseOutcome_eq_map {p q : Parser} (h : p.current = q.current) (phrase : Phrase)
    (outcome : Option (Except Fault Expr)) :
    p.phraseOutcome phrase (outcome.map (Except.mapError (Fault.withLimit p.limit))) =
      (q.phraseOutcome phrase outcome).map (Except.mapError (Fault.withLimit p.limit)) := by
  cases phrase with
  | expression | term | factor | group => rfl
  | whole =>
      refine congrArg some ?_
      match outcome with
      | none => simp only [conclude, overflow, h, Option.map_none, Except.mapError, Fault.withLimit,
          Cause.withLimit]
      | some (.error fault) => rfl
      | some (.ok e) => exact close_eq_mapError h p.limit e

/-- The run of a phrase is that of a fresh parser, with the open groups added. -/
theorem phraseRun_eq_renewed (room : Nat) (p : Parser) (phrase : Phrase) :
    p.phraseRun room phrase = (p.renewed.phraseRun room phrase).under p.limit p.depth :=
  ParseState.run_eq_fresh ⟨phrase.goal, p.limit, p.depth⟩ _ p.finish [] phrase.start p.ahead

/-- A phrase comes out as on a fresh parser, but for the limit that a fault may name. -/
theorem read_eq_renewed (room : Nat) (p : Parser) (phrase : Phrase) :
    (p.read room phrase).1 =
      (p.renewed.read room phrase).1.map (Except.mapError (Fault.withLimit p.limit)) := by
  have hcurrent : (p.resume (p.phraseRun room phrase)).current =
      (p.renewed.resume (p.renewed.phraseRun room phrase)).current := by
    rw [phraseRun_eq_renewed]
    rfl
  have houtcome := congrArg ParseStop.outcome (phraseRun_eq_renewed room p phrase)
  rw [read_eq, read_eq]
  simp only [houtcome]
  exact phraseOutcome_eq_map hcurrent phrase _

/-- A phrase takes as many tokens as on a fresh parser. -/
theorem consumed_read_eq_renewed (room : Nat) (p : Parser) (phrase : Phrase) :
    (p.read room phrase).2.consumed = p.consumed + (p.renewed.read room phrase).2.consumed := by
  rw [read_eq, read_eq, phraseRun_eq_renewed]
  simp only [resume, renewed, ofSequence, Nat.zero_add, ParseStop.under]

/-- A phrase leaves as many groups open as on a fresh parser. -/
theorem depth_read_eq_renewed (room : Nat) (p : Parser) (phrase : Phrase) :
    (p.read room phrase).2.depth = p.depth + (p.renewed.read room phrase).2.depth := by
  rw [read_eq, read_eq, phraseRun_eq_renewed]
  rfl

/-! ## Many phrases -/

/-- The parser after some phrases, each with room for some calls, whether they were read or refused. -/
def after (p : Parser) (phrases : List (Nat × Phrase)) : Parser :=
  phrases.foldl (fun p call => (p.read call.1 call.2).2) p

/-- A parser of a sequence whose tokens ahead are those from its index on. -/
structure StandsIn (s : TokenSequence) (limit : Int) (p : Parser) : Prop where
  ahead : p.ahead = s.body.drop p.consumed
  consumed : p.consumed ≤ s.body.length
  finish : p.finish = s.finish
  limit : p.limit = limit

variable {s : TokenSequence} {limit : Int}

/-- A parser at the start of a sequence stands in it. -/
theorem standsIn_ofSequence (s : TokenSequence) (limit : Int) : (ofSequence s limit).StandsIn s limit where
  ahead := rfl
  consumed := Nat.zero_le _
  finish := rfl
  limit := rfl

/-- A phrase keeps a parser in its sequence. -/
theorem StandsIn.read (h : p.StandsIn s limit) (room : Nat) (phrase : Phrase) :
    (p.read room phrase).2.StandsIn s limit := by
  have hsuffix : (p.phraseRun room phrase).ahead <:+ p.ahead := ParseState.ahead_run_suffix p.ahead
  have hlength : p.ahead.length = s.body.length - p.consumed := by rw [h.ahead, List.length_drop]
  have hbound := h.consumed
  rw [read_eq]
  constructor
  · calc (p.phraseRun room phrase).ahead
        = p.ahead.drop (p.ahead.length - (p.phraseRun room phrase).ahead.length) :=
          List.suffix_iff_eq_drop.mp hsuffix
      _ = s.body.drop (p.consumed + (p.ahead.length - (p.phraseRun room phrase).ahead.length)) := by
          rw [h.ahead, List.drop_drop]
  · simp only [resume]
    omega
  · exact h.finish
  · exact h.limit

/-- Any number of phrases keeps a parser in its sequence. -/
theorem StandsIn.after (h : p.StandsIn s limit) (phrases : List (Nat × Phrase)) :
    (p.after phrases).StandsIn s limit := by
  induction phrases generalizing p with
  | nil => exact h
  | cons call phrases ih => exact ih (h.read call.1 call.2)

end Parser

/-! ## Lists that go on behind an end mark -/

namespace TokenSequence

variable {tokens : List Token} {s : TokenSequence}

/-- A list that closes with an end mark is the sequence up to its first end mark, and what follows. -/
theorem exists_split_of_ofList? (h : ofList? tokens = some s) :
    ∃ mark rest, tokens = s.body ++ mark :: rest ∧ mark.kind = .eof ∧ mark.pos = s.finish := by
  have hbody := body_eq_of_ofList? h
  unfold ofList? at h
  split at h
  · obtain ⟨mark, hmark, rfl⟩ := Option.map_eq_some_iff.mp h
    obtain ⟨hkind, before, rest, rfl, hbefore⟩ := List.find?_eq_some_iff_append.mp hmark
    refine ⟨mark, rest, ?_, by simpa using hkind, rfl⟩
    have htake : before.takeWhile (·.kind != .eof) = before := by
      rw [List.takeWhile_eq_self_iff]
      simpa using hbefore
    simp [List.takeWhile_append, htake, beq_iff_eq.mp hkind]
  · cases h

/-- The first end mark stands behind the tokens of the sequence. -/
theorem findIdx_of_ofList? (h : ofList? tokens = some s) :
    tokens.findIdx (·.kind == .eof) = s.body.length := by
  have hne := kind_ne_eof_of_ofList? h
  obtain ⟨mark, rest, rfl, hkind, -⟩ := exists_split_of_ofList? h
  rw [List.findIdx_append, List.findIdx_eq_length.mpr (by simpa using hne)]
  simp [List.findIdx_cons, hkind]

/-- The end part of a list from a token of its sequence on. -/
theorem ofList?_drop (h : ofList? tokens = some s) {index : Nat} (hindex : index ≤ s.body.length) :
    ofList? (tokens.drop index) = some ⟨s.body.drop index, s.finish⟩ := by
  have hne := kind_ne_eof_of_ofList? h
  obtain ⟨mark, rest, rfl, hkind, hpos⟩ := exists_split_of_ofList? h
  have hlast : (mark :: rest).getLast?.any (·.kind == .eof) = true := by
    unfold ofList? at h
    split at h
    · next hclosed => rwa [List.getLast?_append_cons] at hclosed
    · cases h
  rw [List.drop_append_of_le_length hindex, ← hpos]
  exact ofList?_append_cons (fun t ht => hne t (List.mem_of_mem_drop ht)) hkind hlast

end TokenSequence

/-- For every list of tokens that closes with an end mark, every limit, and every session of phrases, read or
refused, on one parser of the list, each with room for some calls: with the next phrase the index does not go
back and does not pass the first end mark; a phrase that is read takes at least one token and leaves the count
of open groups as it was; a phrase that is not does not lower the count. And the phrase comes out as on a fresh
parser of the tokens from the index on, with the same room for calls and under the limit less the count, but
for the limit that a fault names; the index and the count go on by the same amounts. -/
theorem parser_session_is_local {tokens : List Token}
    (hmark : tokens.getLast?.map Token.kind = some .eof) (limit : Int) (phrases : List (Nat × Phrase))
    (room : Nat) (phrase : Phrase) :
    ∃ s, TokenSequence.ofList? tokens = some s ∧
      let p := (Parser.ofSequence s limit).after phrases
      let q := (p.read room phrase).2
      (p.consumed ≤ q.consumed ∧ q.consumed ≤ tokens.findIdx (·.kind == .eof)) ∧
      (∀ e, (p.read room phrase).1 = some (.ok e) → p.consumed < q.consumed ∧ q.depth = p.depth) ∧
      ((∀ e, (p.read room phrase).1 ≠ some (.ok e)) → p.depth ≤ q.depth) ∧
      ∃ s', TokenSequence.ofList? (tokens.drop p.consumed) = some s' ∧
        let fresh := Parser.ofSequence s' (limit - p.depth)
        (p.read room phrase).1 =
          (fresh.read room phrase).1.map (Except.mapError (Fault.withLimit limit)) ∧
        q.consumed = p.consumed + (fresh.read room phrase).2.consumed ∧
        q.depth = p.depth + (fresh.read room phrase).2.depth := by
  obtain ⟨s, hs⟩ := TokenSequence.exists_ofList? hmark
  refine ⟨s, hs, ?_⟩
  intro p q
  have hp : p.StandsIn s limit := (Parser.standsIn_ofSequence s limit).after phrases
  have hq : q.StandsIn s limit := hp.read room phrase
  refine ⟨⟨p.consumed_le_consumed_read room phrase, ?_⟩, ?_, ?_, ⟨s.body.drop p.consumed, s.finish⟩,
    TokenSequence.ofList?_drop hs hp.consumed, ?_⟩
  · rw [TokenSequence.findIdx_of_ofList? hs]
    exact hq.consumed
  · intro e he
    exact Parser.consumed_lt_of_read he
  · intro _
    exact p.depth_le_depth_read room phrase
  · intro fresh
    have hfresh : fresh = p.renewed := by rw [Parser.renewed, hp.ahead, hp.finish, hp.limit]
    rw [hfresh]
    refine ⟨?_, p.consumed_read_eq_renewed room phrase, p.depth_read_eq_renewed room phrase⟩
    have hread := p.read_eq_renewed room phrase
    rwa [hp.limit] at hread

/-- Under a limit of one, the second group of `((2(3)` is refused and leaves two groups open. The term after it
meets a group as well, and is refused as on a fresh parser of `2(3)` under a limit of minus one. -/
theorem parser_session_is_local_deep_groups :
    let tokens : List Token := [⟨.lparen, ⟨1, 1⟩, none⟩, ⟨.lparen, ⟨1, 2⟩, none⟩,
      ⟨.number, ⟨1, 3⟩, some 2⟩, ⟨.lparen, ⟨1, 4⟩, none⟩, ⟨.number, ⟨1, 5⟩, some 3⟩,
      ⟨.rparen, ⟨1, 6⟩, none⟩, ⟨.eof, ⟨1, 7⟩, none⟩]
    tokens.getLast?.map Token.kind = some .eof ∧
    ∃ s s', TokenSequence.ofList? tokens = some s ∧ TokenSequence.ofList? (tokens.drop 2) = some s' ∧
      let p := (Parser.ofSequence s 1).after [(20, .whole)]
      let fresh := Parser.ofSequence s' (-1)
      p.consumed = 2 ∧ p.depth = 2 ∧
      (p.read 20 .term).1 = some (.error ⟨.nestingTooDeep 1, some ⟨1, 4⟩⟩) ∧
      (p.read 20 .term).1 = (fresh.read 20 .term).1.map (Except.mapError (Fault.withLimit 1)) ∧
      (p.read 20 .term).2.consumed = 2 + (fresh.read 20 .term).2.consumed ∧
      (p.read 20 .term).2.depth = 2 + (fresh.read 20 .term).2.depth := by
  intro tokens
  have hmark : tokens.getLast?.map Token.kind = some .eof := rfl
  obtain ⟨s, hs, -, -, -, s', hs', hread, hconsumed, hdepth⟩ :=
    parser_session_is_local hmark 1 [(20, .whole)] 20 .term
  cases hs
  exact ⟨hmark, _, s', rfl, hs', rfl, rfl, rfl, hread, hconsumed, hdepth⟩

end Calculator
