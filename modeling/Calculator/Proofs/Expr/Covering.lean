import Calculator.Proofs.Expr.Reading
import Mathlib.Data.List.Basic
import Mathlib.Data.List.TakeWhile

/-!
# The parser accepts exactly what the grammar derives

What the parser has read so far is not yet a phrase. A state covers the tokens read if whatever the
state awaits would complete them to a phrase with the tree that the state would build. Each step keeps
this (`ParseState.Covers.next?`), and so does every run, which makes an accepted text a phrase.

With `Derives.reads` for the converse, `parse_eq_ok_iff_derives` says that parsing and the grammar
agree, and that the grammar is unambiguous.
-/

set_option autoImplicit false

namespace Calculator

/-- A pending sum covers some tokens: a term after them completes an expression. `room` bounds the
nesting of groups. -/
def Pending.CoversSum (room : Int) (sum : Option Pending) (tokens : List Token) : Prop :=
  ∀ more n e, Derives .term more n e → (n : Int) ≤ room →
    ∃ m : Nat, (m : Int) ≤ room ∧ Derives .expression (tokens ++ more) m (Pending.join sum e)

/-- A pending sum and a term cover some tokens: those of the sum, followed by those of the term. -/
def Pending.CoversTerm (room : Int) (sum : Option Pending) (term : Expr) (tokens : List Token) :
    Prop :=
  ∃ before during n, tokens = before ++ during ∧ Pending.CoversSum room sum before ∧
    Derives .term during n term ∧ (n : Int) ≤ room

namespace Level

/-- A level covers some tokens: a factor after them completes a term. -/
def Covers (room : Int) (level : Level) (tokens : List Token) : Prop :=
  ∀ more n e, Derives .factor more n e → (n : Int) ≤ room →
    Pending.CoversTerm room level.sum (level.term e) (tokens ++ more)

/-- A level covers some tokens in front of a group: a group after them, opened by the given token,
completes a term. -/
def CoversBefore (room : Int) (opening : Token) (level : Level) (tokens : List Token) : Prop :=
  ∀ more n e, Derives .group (opening :: more) n e → (n : Int) ≤ room →
    Pending.CoversTerm room level.sum (level.term e) (tokens ++ opening :: more)

/-- The levels around the innermost open group cover the tokens up to and with its opening. The
groups that are open so far are within the limit. -/
def CoversAround (limit : Int) : List Level → List Token → Prop
  | [], tokens => tokens = []
  | level :: outer, tokens =>
    ∃ before during opening, tokens = before ++ (during ++ [opening]) ∧ opening.kind = .lparen ∧
      CoversAround limit outer before ∧ level.CoversBefore (limit - outer.length) opening during ∧
      outer.length + 1 ≤ limit

end Level

/-- What the parser has read is covered by its state. -/
def ParseState.Covers (limit : Int) : ParseState → List Token → Prop
  | .group, _ => False
  | .operand level outer, tokens =>
    ∃ before during, tokens = before ++ during ∧ Level.CoversAround limit outer before ∧
      level.Covers (limit - outer.length) during
  | .opened pos level outer, tokens =>
    ∃ before during opening, tokens = before ++ (during ++ [opening]) ∧ opening.kind = .lparen ∧
      opening.pos = pos ∧ Level.CoversAround limit outer before ∧
      level.CoversBefore (limit - outer.length) opening during
  | .operator sum term outer, tokens =>
    ∃ before during, tokens = before ++ during ∧ Level.CoversAround limit outer before ∧
      Pending.CoversTerm (limit - outer.length) sum term during

/-! ## What pending operations cover -/

namespace Pending

variable {room : Int} {sum : Option Pending} {term : Expr} {tokens : List Token}

/-- Where no sum is pending, nothing has to be covered. -/
theorem coversSum_none : CoversSum room none [] := by
  intro more n e h hn
  exact ⟨n, hn, h.term⟩

/-- A pending sum and its last term are an expression. -/
theorem CoversTerm.exists_expression (h : CoversTerm room sum term tokens) :
    ∃ n : Nat, (n : Int) ≤ room ∧ Derives .expression tokens n (join sum term) := by
  obtain ⟨before, during, n, rfl, hsum, hterm, hn⟩ := h
  exact hsum during n term hterm hn

-- What is pending after a term depends on the token: an additive operator makes the whole expression so
-- far the pending sum, anything that multiplies makes the term so far the pending product.
/-- A plus or a minus after a term leaves a sum that awaits a term. -/
theorem CoversTerm.covers_additive (h : CoversTerm room sum term tokens) {t : Token} {op : Operator}
    (ht : t.kind.additive? = some op) :
    Level.Covers room ⟨some ⟨join sum term, op, t.pos⟩, none, []⟩ (tokens ++ [t]) := by
  obtain ⟨n, hn, hleft⟩ := h.exists_expression
  intro more m e hmore hm
  refine ⟨tokens ++ [t], more, m, rfl, ?_, hmore.factor, hm⟩
  intro more' k e' hmore' hk
  refine ⟨max n k, by omega, ?_⟩
  rw [List.append_assoc, List.singleton_append]
  exact hleft.sum ht hmore'

/-- A star or a slash after a term leaves a product that awaits a factor. -/
theorem CoversTerm.covers_multiplicative (h : CoversTerm room sum term tokens) {t : Token}
    {op : Operator} (ht : t.kind.multiplicative? = some op) :
    Level.Covers room ⟨sum, some ⟨term, op, t.pos⟩, []⟩ (tokens ++ [t]) := by
  obtain ⟨before, during, n, rfl, hsum, hterm, hn⟩ := h
  intro more m e hmore hm
  refine ⟨before, during ++ t :: more, max n m, ?_, hsum, hterm.product ht hmore, by omega⟩
  simp

/-- An opening after a term leaves an implied product that awaits the group. -/
theorem CoversTerm.coversBefore (h : CoversTerm room sum term tokens) (opening : Token) :
    Level.CoversBefore room opening ⟨sum, some ⟨term, .times, opening.pos⟩, []⟩ tokens := by
  obtain ⟨before, during, n, rfl, hsum, hterm, hn⟩ := h
  intro more m e hmore hm
  refine ⟨before, during ++ opening :: more, max n m, ?_, hsum, hterm.implied hmore, by omega⟩
  simp

end Pending

namespace Level

variable {room : Int} {level : Level} {tokens : List Token}

/-- A fresh level covers no tokens. -/
theorem covers_fresh : fresh.Covers room [] := by
  intro more n e h hn
  exact ⟨[], more, n, rfl, Pending.coversSum_none, h.factor, hn⟩

/-- A sign before a factor is covered by the level that keeps it. -/
theorem Covers.withSign (h : level.Covers room tokens) {t : Token} {op : Operator}
    (ht : t.kind.additive? = some op) : (level.withSign op t.pos).Covers room (tokens ++ [t]) := by
  intro more n e hmore hn
  rw [List.append_assoc, List.singleton_append]
  exact h (t :: more) n (.unary op e t.pos) (hmore.sign ht) hn

/-- A group can stand wherever a factor can. -/
theorem Covers.coversBefore (h : level.Covers room tokens) (opening : Token) :
    level.CoversBefore room opening tokens := by
  intro more n e hmore hn
  exact h (opening :: more) n e hmore.group hn

/-- No more groups are open than the limit allows. -/
theorem CoversAround.length_le {limit : Int} (hlimit : 0 ≤ limit) {outer : List Level}
    (h : CoversAround limit outer tokens) : outer.length ≤ limit := by
  cases outer with
  | nil => simpa using hlimit
  | cons level outer =>
      obtain ⟨-, -, -, -, -, -, -, hroom⟩ := h
      simpa using hroom

end Level

/-! ## One step -/

namespace ParseState

variable {limit : Int} {tokens : List Token} {t : Token} {next : ParseState}

/-- Reading a token where an operand is awaited keeps what has been read covered. -/
theorem covers_operandNext? {level : Level} {outer : List Level}
    (h : (ParseState.operand level outer).Covers limit tokens)
    (hnext : operandNext? level outer t = some next) (hroom : outer.length ≤ limit) :
    next.Covers limit (tokens ++ [t]) := by
  obtain ⟨before, during, rfl, hbefore, hduring⟩ := h
  unfold operandNext? at hnext
  rw [List.append_assoc]
  split at hnext
  · next hkind =>
    cases hnext
    exact ⟨before, _, rfl, hbefore, hduring [t] 0 _ (.number hkind) (by omega)⟩
  · next hkind =>
    cases hnext
    exact ⟨before, _, rfl, hbefore, hduring.withSign (by simp [hkind, TokenKind.additive?])⟩
  · next hkind =>
    cases hnext
    exact ⟨before, _, rfl, hbefore, hduring.withSign (by simp [hkind, TokenKind.additive?])⟩
  · next hkind =>
    cases hnext
    exact ⟨before, during, t, rfl, hkind, rfl, hbefore, hduring.coversBefore t⟩
  · cases hnext

/-- Reading a token after a term keeps what has been read covered. -/
theorem covers_operatorNext? {sum : Option Pending} {term : Expr} {outer : List Level}
    (h : (ParseState.operator sum term outer).Covers limit tokens)
    (hnext : operatorNext? sum term outer t = some next) : next.Covers limit (tokens ++ [t]) := by
  obtain ⟨before, during, rfl, hbefore, hduring⟩ := h
  unfold operatorNext? at hnext
  simp only at hnext
  rw [List.append_assoc]
  split at hnext
  · next hkind =>
    cases hnext
    exact ⟨before, _, rfl, hbefore, hduring.covers_additive (by simp [hkind, TokenKind.additive?])⟩
  · next hkind =>
    cases hnext
    exact ⟨before, _, rfl, hbefore, hduring.covers_additive (by simp [hkind, TokenKind.additive?])⟩
  · next hkind =>
    cases hnext
    exact ⟨before, _, rfl, hbefore,
      hduring.covers_multiplicative (by simp [hkind, TokenKind.multiplicative?])⟩
  · next hkind =>
    cases hnext
    exact ⟨before, _, rfl, hbefore,
      hduring.covers_multiplicative (by simp [hkind, TokenKind.multiplicative?])⟩
  · next hkind =>
    cases hnext
    exact ⟨before, during, t, rfl, hkind, rfl, hbefore, hduring.coversBefore t⟩
  · next level outer hkind =>
    -- The group closes: its content is an expression, and the level around it gets an operand.
    cases hnext
    obtain ⟨before, during', opening, rfl, hopening, hbefore, hlevel, hroom⟩ := hbefore
    obtain ⟨n, hn, hcontent⟩ := hduring.exists_expression
    have hgroup := Derives.fullGroup hopening hcontent hkind
    simp only [List.length_cons] at hn
    refine ⟨before, _, ?_, hbefore, hlevel _ _ _ hgroup (by omega)⟩
    simp
  · cases hnext

/-- Reading a token keeps what is covered. -/
theorem Covers.next? {scope : Scope} {state : ParseState} (hdepth : scope.depth = 0)
    (hlimit : 0 ≤ scope.limit) (h : state.Covers scope.limit tokens)
    (hnext : state.next? scope t = some next) : next.Covers scope.limit (tokens ++ [t]) := by
  cases state with
  | group => exact h.elim
  | operand level outer =>
      have hroom : outer.length ≤ scope.limit := by
        obtain ⟨before, during, -, hbefore, -⟩ := h
        exact hbefore.length_le hlimit
      exact covers_operandNext? h hnext hroom
  | opened pos level outer =>
      obtain ⟨before, during, opening, rfl, hopening, rfl, hbefore, hlevel⟩ := h
      simp only [ParseState.next?] at hnext
      split at hnext
      · next hkind =>
        have hroom := hbefore.length_le hlimit
        cases hnext
        have hgroup := Derives.emptyGroup hopening hkind
        refine ⟨before, _, ?_, hbefore, hlevel _ _ _ hgroup (by omega)⟩
        simp
      · split at hnext
        · cases hnext
        · next hdeep =>
          -- The group has room, so its content starts on a fresh level.
          rw [tooDeep_eq_true_iff, hdepth] at hdeep
          have hroom : outer.length + 1 ≤ scope.limit := by omega
          have haround : Level.CoversAround scope.limit (level :: outer)
              (before ++ (during ++ [opening])) :=
            ⟨before, during, opening, rfl, hopening, hbefore, hlevel, hroom⟩
          exact covers_operandNext?
            ⟨_, [], (List.append_nil _).symm, haround, Level.covers_fresh⟩ hnext
            (haround.length_le hlimit)
  | operator sum term outer =>
      simp only [ParseState.next?] at hnext
      split at hnext
      · cases hnext
      · exact covers_operatorNext? h hnext

/-! ## Whole runs -/

/-- Where a run completes, what has been read is an expression. -/
theorem exists_derives_of_outcome {scope : Scope} {state : ParseState} {e : Expr}
    (h : state.Covers scope.limit tokens) (houtcome : state.outcome scope t = .ok e) :
    ∃ n : Nat, (n : Int) ≤ scope.limit ∧ Derives .expression tokens n e := by
  cases state with
  | group => exact h.elim
  | operand level outer => cases houtcome
  | opened pos level outer =>
      simp only [outcome] at houtcome
      split at houtcome <;> cases houtcome
  | operator sum term outer =>
      obtain ⟨before, during, rfl, hbefore, hduring⟩ := h
      cases outer with
      | nil =>
          cases houtcome
          cases hbefore
          simpa using hduring.exists_expression
      | cons level outer => cases houtcome

/-- A run that completes has read an expression. -/
theorem Covers.runFreely {scope : Scope} (hdepth : scope.depth = 0) (hlimit : 0 ≤ scope.limit)
    (finish : Position) (rest : List Token) {state : ParseState} {tokens : List Token} {e : Expr}
    (h : state.Covers scope.limit tokens)
    (hrun : (state.runFreely scope finish rest).outcome = .ok e) :
    ∃ read, ∃ n : Nat, rest = read ++ (state.runFreely scope finish rest).ahead ∧ (n : Int) ≤ scope.limit ∧
      Derives .expression (tokens ++ read) n e := by
  induction rest generalizing state tokens with
  | nil =>
      obtain ⟨n, hn, hderives⟩ := exists_derives_of_outcome h hrun
      exact ⟨[], n, rfl, hn, by simpa using hderives⟩
  | cons t rest ih =>
      cases hnext : state.next? scope t with
      | none =>
          rw [runFreely_stop hnext] at hrun ⊢
          obtain ⟨n, hn, hderives⟩ := exists_derives_of_outcome h hrun
          exact ⟨[], n, rfl, hn, by simpa using hderives⟩
      | some next =>
          rw [runFreely_cons hnext] at hrun ⊢
          obtain ⟨read, n, hsplit, hn, hderives⟩ := ih (h.next? hdepth hlimit hnext) hrun
          refine ⟨t :: read, n, by rw [List.cons_append, ← hsplit], hn, ?_⟩
          simpa using hderives

end ParseState

namespace ParseState

/-- What a run leaves is an end part of its tokens. -/
theorem ahead_runFreely_suffix {scope : Scope} {finish : Position} (state : ParseState)
    (tokens : List Token) : (state.runFreely scope finish tokens).ahead <:+ tokens := by
  induction tokens generalizing state with
  | nil => exact List.suffix_rfl
  | cons t rest ih =>
      cases hnext : state.next? scope t with
      | none => simp [runFreely_stop hnext]
      | some next =>
          rw [runFreely_cons hnext]
          exact (ih next).trans (List.suffix_cons t rest)

end ParseState

namespace TokenSequence

/-- The first end mark of a list that closes with one ends the sequence. -/
theorem ofList?_append_cons {body rest : List Token} {mark : Token}
    (hbody : ∀ t ∈ body, t.kind ≠ .eof) (hmark : mark.kind = .eof)
    (hlast : (mark :: rest).getLast?.any (·.kind == .eof) = true) :
    ofList? (body ++ mark :: rest) = some ⟨body, mark.pos⟩ := by
  have hfind : body.find? (·.kind == .eof) = none := by
    simpa [List.find?_eq_none] using hbody
  have htake : body.takeWhile (·.kind != .eof) = body := by
    rw [List.takeWhile_eq_self_iff]
    simpa using hbody
  rw [ofList?, List.getLast?_append_cons, if_pos hlast]
  simp [List.find?_append, hfind, List.takeWhile_append, htake, hmark]

/-- A list whose only end mark is its last token is the sequence of the tokens before it. -/
theorem ofList?_append_mark {body : List Token} {mark : Token}
    (hbody : ∀ t ∈ body, t.kind ≠ .eof) (hmark : mark.kind = .eof) :
    ofList? (body ++ [mark]) = some ⟨body, mark.pos⟩ := by
  apply ofList?_append_cons hbody hmark
  simp [hmark]

end TokenSequence

namespace Expr

/-- What the run over a sequence leaves are tokens of the sequence. -/
theorem ahead_parseRun_subset (limit : Int) (s : TokenSequence) :
    (parseRun limit s).ahead ⊆ s.body := (ParseState.ahead_runFreely_suffix _ _).subset

/-- A sequence denotes a tree if the run over it completes and leaves no token. -/
theorem parseFreely_eq_ok_iff {s : TokenSequence} (hbody : ∀ t ∈ s.body, t.kind ≠ .eof) (limit : Int)
    (e : Expr) :
    parseFreely limit s = .ok e ↔ (parseRun limit s).outcome = .ok e ∧ (parseRun limit s).ahead = [] := by
  have hahead := ahead_parseRun_subset limit s
  rw [parseFreely]
  generalize parseRun limit s = stop at hahead ⊢
  obtain ⟨outcome, ahead, depth⟩ := stop
  cases outcome with
  | error fault => simp [Except.bind]
  | ok e' =>
      cases ahead with
      | nil => simp [Except.bind, Parser.close, Parser.current, Parser.resume]
      | cons t rest =>
          have ht : t.kind ≠ .eof := hbody t (hahead (by simp))
          simp [Except.bind, Parser.close, Parser.current, Parser.resume, ht]

end Expr

namespace Derives

variable {body : List Token} {n : Nat} {e : Expr}

/-- A text whose groups fit under the limit is parsed to the tree that it denotes. -/
theorem parseFreely_eq_ok (h : Derives .whole body n e) (hbody : ∀ t ∈ body, t.kind ≠ .eof)
    (finish : Position) {limit : Nat} (hn : n ≤ limit) :
    Expr.parseFreely limit ⟨body, finish⟩ = .ok e := by
  obtain ⟨sum, term, rfl, hrun⟩ :=
    reads finish (Scope.goal_wholeText limit) h [] (by simpa using hn) []
  rw [List.append_nil] at hrun
  rw [Expr.parseFreely_eq_ok_iff hbody, Expr.parseRun, hrun]
  exact ⟨rfl, rfl⟩

/-- A text whose groups do not fit under the limit is not parsed to any tree. -/
theorem parseFreely_ne_ok (h : Derives .whole body n e) (hbody : ∀ t ∈ body, t.kind ≠ .eof)
    (finish : Position) {limit : Nat} (hn : limit < n) (e' : Expr) :
    Expr.parseFreely limit ⟨body, finish⟩ ≠ .ok e' := by
  obtain ⟨pos, hstop⟩ :=
    refuses finish (Scope.goal_wholeText limit) h [] (by simp) (by simpa using hn) []
  rw [List.append_nil] at hstop
  rw [ne_eq, Expr.parseFreely_eq_ok_iff hbody, Expr.parseRun, hstop]
  rintro ⟨houtcome, -⟩
  cases houtcome

/-- The grammar is unambiguous: the tokens of a text determine its tree and its nesting. -/
theorem unique (h : Derives .whole body n e) (hbody : ∀ t ∈ body, t.kind ≠ .eof) {m : Nat}
    {e' : Expr} (h' : Derives .whole body m e') : n = m ∧ e = e' := by
  have hnm : n = m := by
    rcases Nat.lt_trichotomy n m with hlt | heq | hlt
    · exact absurd (h.parseFreely_eq_ok hbody .start le_rfl) (h'.parseFreely_ne_ok hbody .start hlt e)
    · exact heq
    · exact absurd (h'.parseFreely_eq_ok hbody .start le_rfl) (h.parseFreely_ne_ok hbody .start hlt e')
  subst hnm
  have heq := h.parseFreely_eq_ok hbody .start le_rfl
  rw [h'.parseFreely_eq_ok hbody .start le_rfl] at heq
  exact ⟨rfl, (Except.ok.inj heq).symm⟩

end Derives

/-- A text that is parsed to a tree denotes it, and its groups fit under the limit. -/
theorem Expr.exists_derives_of_parseFreely {s : TokenSequence} (hbody : ∀ t ∈ s.body, t.kind ≠ .eof)
    {limit : Int} (hlimit : 0 ≤ limit) {e : Expr} (h : Expr.parseFreely limit s = .ok e) :
    ∃ n : Nat, n ≤ limit ∧ Derives .whole s.body n e := by
  obtain ⟨houtcome, hahead⟩ := (Expr.parseFreely_eq_ok_iff hbody limit e).mp h
  have hstart : (ParseState.operand .fresh []).Covers (Scope.wholeText limit).limit [] :=
    ⟨[], [], rfl, rfl, Level.covers_fresh⟩
  obtain ⟨read, n, hsplit, hn, hderives⟩ :=
    hstart.runFreely (Scope.depth_wholeText limit) hlimit s.finish s.body houtcome
  have hread : s.body = read := by
    rw [Expr.parseRun] at hahead
    rw [hsplit, hahead, List.append_nil]
  rw [hread]
  exact ⟨n, hn, hderives.whole⟩

end Calculator
