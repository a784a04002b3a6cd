import Calculator.Proofs.Expr.Locality
import Calculator.Token.Stream

/-!
# A parser reads through a stream

A parser keeps the tokens that are left and how many it has read. The stream of the whole list at that index
shows the same token, and moves on with the parser: reading a token is advancing the stream, and where the
parser stops, the stream shows the token that it stops at (`Parser.StandsIn.runsOver_iff`). Where only one kind
of token can follow, expecting it of the stream decides how parsing goes on
(`ParseState.expect?_of_expects?`). Behind the first end mark of a list the stream never gets.
-/

set_option autoImplicit false

namespace Calculator

/-- A run of the parser that sees the tokens through a stream only: it looks at the next token, and either
stops there or advances. -/
inductive ParseState.RunsOver (room : Nat) (scope : Scope) :
    List Nat → ParseState → TokenStream → Option (Except Fault Expr) → Nat → TokenStream → Prop where
  | stop {groups : List Nat} {state : ParseState} {stream : TokenStream} {t : Token}
      (hlook : stream.current? = some t) (hstep : state.step? room scope groups t = none) :
      RunsOver room scope groups state stream (state.stop room scope groups t []).outcome
        (state.stop room scope groups t []).depth stream
  | read {groups : List Nat} {state next : ParseState} {stream later last : TokenStream} {t : Token}
      {outcome : Option (Except Fault Expr)} {depth : Nat}
      (hadvance : stream.advance? = some (t, later)) (hstep : state.step? room scope groups t = some next)
      (hrest : RunsOver room scope (state.groupsAfter scope groups t) next later outcome depth last) :
      RunsOver room scope groups state stream outcome depth last

/-! ## What a stream shows -/

namespace TokenStream

variable {tokens : List Token} {s : TokenSequence} {index : Nat} {t : Token}

/-- Inside the list, a stream shows the token at its index. -/
theorem current?_of_lt (h : index < tokens.length) :
    (⟨tokens, index⟩ : TokenStream).current? = tokens[index]? := by
  have hplace : min ((index : Int) + 0) ((tokens.length : Int) - 1) = index := by omega
  rw [current?, peek?, hplace, atPlace?_natCast]

/-- Before the first end mark, a stream shows the tokens of the sequence. -/
theorem current?_of_getElem? (hs : TokenSequence.ofList? tokens = some s) (ht : s.body[index]? = some t) :
    (⟨tokens, index⟩ : TokenStream).current? = some t := by
  obtain ⟨mark, rest, rfl, -, -⟩ := TokenSequence.exists_split_of_ofList? hs
  have hindex : index < s.body.length := (List.getElem?_eq_some_iff.mp ht).1
  rw [current?_of_lt (by rw [List.length_append]; omega), List.getElem?_append_left hindex, ht]

/-- Behind the tokens of the sequence, a stream shows the first end mark. -/
theorem exists_current?_eof (hs : TokenSequence.ofList? tokens = some s) :
    ∃ mark, (⟨tokens, s.body.length⟩ : TokenStream).current? = some mark ∧ mark.kind = .eof ∧
      mark.pos = s.finish := by
  obtain ⟨mark, rest, rfl, hkind, hpos⟩ := TokenSequence.exists_split_of_ofList? hs
  refine ⟨mark, ?_, hkind, hpos⟩
  rw [current?_of_lt (by simp), List.getElem?_append_right le_rfl, Nat.sub_self]
  rfl

/-- Advancing past a token that is no end mark moves on by one. -/
theorem advance?_of_current? (h : (⟨tokens, index⟩ : TokenStream).current? = some t)
    (ht : t.kind ≠ .eof) :
    (⟨tokens, index⟩ : TokenStream).advance? = some (t, ⟨tokens, index + 1⟩) := by
  rw [advance?, h, Option.map_some, passing, if_neg ht]

/-- What a stream shows is what it advances over. -/
theorem current?_of_advance? {stream later : TokenStream} {t : Token}
    (h : stream.advance? = some (t, later)) :
    stream.current? = some t ∧ later = stream.passing t := by
  obtain ⟨t', hlook, heq⟩ := Option.map_eq_some_iff.mp h
  cases heq
  exact ⟨hlook, rfl⟩

/-- A token is accepted exactly if the stream advances over it and it is of one of the kinds. -/
theorem accept?_eq_some_iff {stream later : TokenStream} {kinds : List TokenKind} {t : Token} :
    stream.accept? kinds = some (some t, later) ↔ stream.advance? = some (t, later) ∧ t.kind ∈ kinds := by
  unfold accept? advance?
  cases stream.current? with
  | none => simp
  | some t' =>
      by_cases hkind : t'.kind ∈ kinds
      · simp only [Option.map_some, List.contains_iff_mem, hkind, if_true, Option.some.injEq, Prod.mk.injEq]
        exact ⟨fun h => ⟨h, h.1 ▸ hkind⟩, And.left⟩
      · simp only [Option.map_some, List.contains_iff_mem, hkind, if_false, Option.some.injEq, Prod.mk.injEq,
          reduceCtorEq, false_and, false_iff]
        rintro ⟨⟨rfl, -⟩, hmem⟩
        exact hkind hmem

/-- A token is what was expected exactly if the stream advances over it and it is of the kind. -/
theorem expect?_eq_ok_iff {stream later : TokenStream} {kind : TokenKind} {what : String} {t : Token} :
    stream.expect? kind what = some (.ok (t, later)) ↔ stream.advance? = some (t, later) ∧ t.kind = kind := by
  unfold expect? advance?
  cases stream.current? with
  | none => simp
  | some t' =>
      by_cases hkind : t'.kind = kind
      · simp only [Option.map_some, hkind, if_true, Option.some.injEq, Except.ok.injEq, Prod.mk.injEq]
        exact ⟨fun h => ⟨h, h.1 ▸ hkind⟩, And.left⟩
      · simp only [Option.map_some, hkind, if_false, Option.some.injEq, reduceCtorEq, Prod.mk.injEq, false_iff]
        rintro ⟨⟨rfl, -⟩, hmem⟩
        exact hkind hmem

/-- Any other token is a fault, which names what was expected. -/
theorem expect?_of_ne {stream : TokenStream} {kind : TokenKind} {what : String} {t : Token}
    (hlook : stream.current? = some t) (hkind : t.kind ≠ kind) :
    stream.expect? kind what = some (.error (t.unexpected (some what))) := by
  rw [expect?, hlook, Option.map_some, if_neg hkind]

end TokenStream

/-! ## What the parser expects of a stream -/

namespace ParseState

/-- The only kind of token that a state goes on with, and the words for it, if the token at hand has to be of
that kind: a group has to be opened, and its content has to be closed where it does not go on. -/
def expects? (state : ParseState) (t : Token) : Option (TokenKind × String) :=
  match state with
  | .group => some (.lparen, "'('")
  | .operator _ _ (_ :: _) =>
    if t.kind ∈ [.plus, .minus, .star, .slash, .lparen] then none else some (.rparen, "')'")
  | _ => none

variable {scope : Scope} {state : ParseState} {t : Token} {kind : TokenKind} {what : String}

/-- What is expected is the opening of a group that is awaited, or the closing of one whose content does not go
on. -/
theorem cases_of_expects? (h : state.expects? t = some (kind, what)) :
    (state = .group ∧ kind = .lparen ∧ what = "'('") ∨
      ∃ sum term level outer, state = .operator sum term (level :: outer) ∧
        t.kind ∉ [.plus, .minus, .star, .slash, .lparen] ∧ kind = .rparen ∧ what = "')'" := by
  cases state with
  | group =>
      cases h
      exact .inl ⟨rfl, rfl, rfl⟩
  | operand level outer => cases h
  | opened pos level outer => cases h
  | operator sum term outer =>
      cases outer with
      | nil => cases h
      | cons level outer =>
          simp only [expects?] at h
          split at h
          · cases h
          · next hkinds =>
            cases h
            exact .inr ⟨sum, term, level, outer, rfl, hkinds, rfl, rfl⟩

/-- A state that expects a kind of token goes on with tokens of that kind only. -/
theorem exists_next?_iff_of_expects? (h : state.expects? t = some (kind, what)) :
    (∃ next, state.next? scope t = some next) ↔ t.kind = kind := by
  obtain ⟨rfl, rfl, -⟩ | ⟨sum, term, level, outer, rfl, hkinds, rfl, -⟩ := cases_of_expects? h
  · by_cases hkind : t.kind = .lparen <;> simp [next?, hkind]
  · simp only [next?, List.isEmpty_cons, Bool.false_and, Bool.false_eq_true, if_false, operatorNext?]
    cases hkind : t.kind <;> simp_all

/-- The fault of a state that expects a kind of token names what was expected. -/
theorem outcome_of_expects? (h : state.expects? t = some (kind, what)) :
    state.outcome scope t = .error (t.unexpected (some what)) := by
  obtain ⟨rfl, -, rfl⟩ | ⟨sum, term, level, outer, rfl, -, -, rfl⟩ := cases_of_expects? h
  · rfl
  · rfl

/-- Where a state expects a kind of token, expecting it of the stream decides how parsing goes on: with the
token over which the stream advances, or not at all and with the same fault. -/
theorem expect?_of_expects? {stream : TokenStream} (hlook : stream.current? = some t)
    (h : state.expects? t = some (kind, what)) :
    (∃ next, state.next? scope t = some next ∧ stream.expect? kind what = some (.ok (t, stream.passing t))) ∨
      ∃ fault, state.next? scope t = none ∧ state.outcome scope t = .error fault ∧
        stream.expect? kind what = some (.error fault) := by
  have hiff : (∃ next, state.next? scope t = some next) ↔ t.kind = kind := exists_next?_iff_of_expects? h
  by_cases hkind : t.kind = kind
  · obtain ⟨next, hnext⟩ := hiff.mpr hkind
    have hadvance : stream.advance? = some (t, stream.passing t) := by
      rw [TokenStream.advance?, hlook, Option.map_some]
    exact .inl ⟨next, hnext, TokenStream.expect?_eq_ok_iff.mpr ⟨hadvance, hkind⟩⟩
  · have hnone : state.next? scope t = none :=
      Option.eq_none_iff_forall_ne_some.mpr fun next hnext => hkind (hiff.mp ⟨next, hnext⟩)
    exact .inr ⟨_, hnone, outcome_of_expects? h, TokenStream.expect?_of_ne hlook hkind⟩

end ParseState

/-! ## Runs over a stream -/

namespace ParseState

variable {room : Nat} {scope : Scope}

/-- No step passes an end mark. -/
theorem step?_of_eof (groups : List Nat) (state : ParseState) {t : Token} (ht : t.kind = .eof) :
    state.step? room scope groups t = none := by
  rw [step?, next?_of_eof state ht, ite_self]

/-- At an end mark, a run stops as at the end of the sequence. -/
theorem stop_of_eof (groups : List Nat) (state : ParseState) {mark : Token} (hmark : mark.kind = .eof)
    (ahead : List Token) :
    state.stop room scope groups mark ahead =
      state.stop room scope groups ⟨.eof, mark.pos, none⟩ ahead := by
  obtain ⟨kind, pos, value⟩ := mark
  obtain rfl : kind = .eof := hmark
  cases state <;> rfl

/-- Only the tokens that are left depend on which tokens are said to be left. -/
theorem stop_eq_of_ahead (groups : List Nat) (state : ParseState) (t : Token) (ahead ahead' : List Token) :
    (state.stop room scope groups t ahead).outcome = (state.stop room scope groups t ahead').outcome ∧
      (state.stop room scope groups t ahead).depth = (state.stop room scope groups t ahead').depth := by
  unfold stop
  split <;> exact ⟨rfl, rfl⟩

/-- A run stops with the tokens that it is said to stop with. -/
theorem ahead_stop (groups : List Nat) (state : ParseState) (t : Token) (ahead : List Token) :
    (state.stop room scope groups t ahead).ahead = ahead := by
  unfold stop
  split <;> rfl

/-- The stream alone decides how a run over it ends. -/
theorem RunsOver.unique {groups : List Nat} {state : ParseState} {stream last last' : TokenStream}
    {outcome outcome' : Option (Except Fault Expr)} {depth depth' : Nat}
    (h : RunsOver room scope groups state stream outcome depth last)
    (h' : RunsOver room scope groups state stream outcome' depth' last') :
    outcome = outcome' ∧ depth = depth' ∧ last = last' := by
  induction h with
  | stop hlook hstep =>
      cases h' with
      | stop hlook' _ =>
          obtain rfl := Option.some.inj (hlook.symm.trans hlook')
          exact ⟨rfl, rfl, rfl⟩
      | read hadvance hstep' _ =>
          obtain rfl := Option.some.inj (hlook.symm.trans (TokenStream.current?_of_advance? hadvance).1)
          rw [hstep] at hstep'
          cases hstep'
  | read hadvance hstep _ ih =>
      obtain ⟨hlook, rfl⟩ := TokenStream.current?_of_advance? hadvance
      cases h' with
      | stop hlook' hstep' =>
          obtain rfl := Option.some.inj (hlook.symm.trans hlook')
          rw [hstep] at hstep'
          cases hstep'
      | read hadvance' hstep' hrest' =>
          obtain ⟨hlook', rfl⟩ := TokenStream.current?_of_advance? hadvance'
          obtain rfl := Option.some.inj (hlook.symm.trans hlook')
          obtain rfl := Option.some.inj (hstep.symm.trans hstep')
          exact ih hrest'

variable {tokens : List Token} {s : TokenSequence}

/-- Stopping at a token is stopping a run over a stream that shows the token. -/
theorem RunsOver.of_stop {groups : List Nat} {state : ParseState} {t : Token} {stream : TokenStream}
    (hlook : stream.current? = some t) (hstep : state.step? room scope groups t = none)
    (ahead : List Token) :
    RunsOver room scope groups state stream (state.stop room scope groups t ahead).outcome
      (state.stop room scope groups t ahead).depth stream := by
  rw [(stop_eq_of_ahead groups state t ahead []).1, (stop_eq_of_ahead groups state t ahead []).2]
  exact .stop hlook hstep

/-- A run over the tokens of a sequence from an index on is a run over the stream at that index. -/
theorem runsOver_run (hs : TokenSequence.ofList? tokens = some s) (groups : List Nat)
    (state : ParseState) {ahead : List Token} {index : Nat} (hahead : s.body.drop index = ahead)
    (hindex : index ≤ s.body.length) :
    let stop := state.run room scope s.finish groups ahead
    RunsOver room scope groups state ⟨tokens, index⟩ stop.outcome stop.depth
      ⟨tokens, s.body.length - stop.ahead.length⟩ := by
  induction ahead generalizing groups state index with
  | nil =>
      obtain rfl : index = s.body.length := le_antisymm hindex (List.drop_eq_nil_iff.mp hahead)
      obtain ⟨mark, hlook, hkind, hpos⟩ := TokenStream.exists_current?_eof hs
      intro stop
      have hstop : stop = state.stop room scope groups mark [] := by
        rw [stop_of_eof groups state hkind, hpos]
        rfl
      rw [hstop, ahead_stop, List.length_nil, Nat.sub_zero]
      exact .stop hlook (step?_of_eof groups state hkind)
  | cons t rest ih =>
      have hlength : rest.length + 1 = s.body.length - index := by
        rw [← List.length_cons, ← hahead, List.length_drop]
      have ht : s.body[index]? = some t := by rw [← List.head?_drop, hahead, List.head?_cons]
      have hlook := TokenStream.current?_of_getElem? hs ht
      have hkind : t.kind ≠ .eof :=
        TokenSequence.kind_ne_eof_of_ofList? hs t (List.mem_of_getElem? ht)
      rw [run]
      cases hstep : state.step? room scope groups t with
      | none =>
          have hlast : s.body.length - (t :: rest).length = index := by
            rw [List.length_cons]
            omega
          simp only [ahead_stop, hlast]
          exact .of_stop hlook hstep (t :: rest)
      | some next =>
          have hrest : s.body.drop (index + 1) = rest := by
            rw [← List.tail_drop, hahead, List.tail_cons]
          exact .read (TokenStream.advance?_of_current? hlook hkind) hstep
            (ih (state.groupsAfter scope groups t) next hrest (by omega))

end ParseState

/-! ## Phrases over a stream -/

namespace Parser

variable {tokens : List Token} {s : TokenSequence} {limit : Int} {p : Parser}

/-- The stream of a list at the index of a parser. -/
def streamOf (p : Parser) (tokens : List Token) : TokenStream := ⟨tokens, p.consumed⟩

/-- The stream shows the token that the parser reads next; an end mark counts for its kind and position. -/
theorem StandsIn.exists_current? (h : p.StandsIn s limit) (hs : TokenSequence.ofList? tokens = some s) :
    ∃ t, (p.streamOf tokens).current? = some t ∧ t.kind = p.current.kind ∧ t.pos = p.current.pos ∧
      (t.kind ≠ .eof → t = p.current) := by
  have hcurrent : p.current = (s.body[p.consumed]?).getD ⟨.eof, s.finish, none⟩ := by
    rw [current, h.ahead, h.finish, List.head?_drop]
  cases ht : s.body[p.consumed]? with
  | some t =>
      rw [ht, Option.getD_some] at hcurrent
      exact ⟨t, TokenStream.current?_of_getElem? hs ht, by rw [hcurrent], by rw [hcurrent],
        fun _ => hcurrent.symm⟩
  | none =>
      have hend : p.consumed = s.body.length := le_antisymm h.consumed (List.getElem?_eq_none_iff.mp ht)
      obtain ⟨mark, hlook, hkind, hpos⟩ := TokenStream.exists_current?_eof hs
      rw [ht, Option.getD_none] at hcurrent
      rw [streamOf, hend, hcurrent]
      exact ⟨mark, hlook, hkind, hpos, fun hne => absurd hkind hne⟩

/-- A whole text is closed exactly where the stream is at its end. -/
theorem StandsIn.close_eq_ok_iff (h : p.StandsIn s limit) (hs : TokenSequence.ofList? tokens = some s)
    (e : Expr) : p.close e = .ok e ↔ (p.streamOf tokens).atEnd? = some true := by
  obtain ⟨t, hlook, hkind, -, -⟩ := h.exists_current? hs
  rw [TokenStream.atEnd?, hlook, Option.map_some, hkind, close]
  split
  · next hend => simp [hend]
  · next hend => simp [hend]

/-- Reading a phrase runs over the stream from where the parser stands to where the phrase leaves it. -/
theorem StandsIn.runsOver (h : p.StandsIn s limit) (hs : TokenSequence.ofList? tokens = some s)
    (room : Nat) (phrase : Phrase) :
    ParseState.RunsOver (phrase.runRoom room) ⟨phrase.goal, p.limit, p.depth⟩ [] phrase.start
      (p.streamOf tokens) (p.phraseRun room phrase).outcome (p.read room phrase).2.depth
      ((p.read room phrase).2.streamOf tokens) := by
  have hrun : ParseState.RunsOver (phrase.runRoom room) ⟨phrase.goal, p.limit, p.depth⟩ [] phrase.start
      (p.streamOf tokens) _ _ _ :=
    ParseState.runsOver_run hs [] phrase.start h.ahead.symm h.consumed
  have hsuffix : (p.phraseRun room phrase).ahead <:+ p.ahead := ParseState.ahead_run_suffix p.ahead
  have hlength : p.ahead.length = s.body.length - p.consumed := by rw [h.ahead, List.length_drop]
  have hle := hsuffix.length_le
  have hbound := h.consumed
  have hindex : (p.read room phrase).2.consumed =
      s.body.length - (p.phraseRun room phrase).ahead.length := by
    rw [read_eq]
    simp only [resume]
    omega
  rw [streamOf, streamOf, hindex, read_eq]
  rw [← h.finish] at hrun
  exact hrun

/-- A run over the stream from where the parser stands comes to what the phrase comes to, and ends where the
phrase leaves the parser. -/
theorem StandsIn.runsOver_iff (h : p.StandsIn s limit) (hs : TokenSequence.ofList? tokens = some s)
    (room : Nat) (phrase : Phrase) (outcome : Option (Except Fault Expr)) (depth : Nat)
    (last : TokenStream) :
    ParseState.RunsOver (phrase.runRoom room) ⟨phrase.goal, p.limit, p.depth⟩ [] phrase.start
        (p.streamOf tokens) outcome depth last ↔
      outcome = (p.phraseRun room phrase).outcome ∧ depth = (p.read room phrase).2.depth ∧
        last = (p.read room phrase).2.streamOf tokens := by
  have hruns := h.runsOver hs room phrase
  refine ⟨fun hother => hother.unique hruns, ?_⟩
  rintro ⟨rfl, rfl, rfl⟩
  exact hruns

end Parser

end Calculator
