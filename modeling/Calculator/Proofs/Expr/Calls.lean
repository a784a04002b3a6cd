import Calculator.Expr.Parse
import Mathlib.Data.List.Forall2
import Mathlib.Data.List.Infix
import Mathlib.Data.Nat.Find
import Mathlib.Order.Bounds.Basic

/-!
# Room for calls

How many calls a token takes depends on the tokens before it, and so does what is read. The two do not
interfere: as long as the calls fit, the parser goes on as if there were room for any number of them
(`ParseState.run_eq_runFreely`), and where they first do not fit, it stops (`ParseState.run_of_overflow`).
So what there is to say about parsing is said about runs that have room for all calls, and carried over.

A level of grouping takes five calls at most: a sign calls for a factor, that for a group, that for an
expression, that for a term and that for a factor. Hence a limit on the groups is a limit on the calls
(`Expr.callsFit_of_limit`).
-/

set_option autoImplicit false

namespace Calculator

/-- The scope of a whole text: an expression, with no group open. -/
def Scope.wholeText (limit : Int) : Scope := ⟨.expression, limit, 0⟩

/-- A whole text is an expression. -/
@[simp] theorem Scope.goal_wholeText (limit : Int) : (wholeText limit).goal = .expression := rfl

/-- The limit of a whole text is the one that is given. -/
@[simp] theorem Scope.limit_wholeText (limit : Int) : (wholeText limit).limit = limit := rfl

/-- No group is open around a whole text. -/
@[simp] theorem Scope.depth_wholeText (limit : Int) : (wholeText limit).depth = 0 := rfl

namespace ParseState

/-! ## Runs with room for all calls -/

/-- Reads tokens as far as they go, with room for any number of calls. -/
def runFreely (scope : Scope) (finish : Position) (state : ParseState) :
    List Token → ParseStop (Except Fault Expr)
  | [] => ⟨state.outcome scope ⟨.eof, finish, none⟩, [], scope.depth + state.openGroups⟩
  | t :: rest =>
    match state.next? scope t with
    | some next => next.runFreely scope finish rest
    | none => ⟨state.outcome scope t, t :: rest, scope.depth + state.openGroups⟩

/-- How many calls the tokens take one after the other, up to the one at which a run stops. -/
def heights (scope : Scope) (finish : Position) (groups : List Nat) (state : ParseState) :
    List Token → List Nat
  | [] => [state.callHeight scope groups ⟨.eof, finish, none⟩]
  | t :: rest =>
    state.callHeight scope groups t ::
      match state.next? scope t with
      | some next => next.heights scope finish (state.groupsAfter scope groups t) rest
      | none => []

variable {scope : Scope} {finish : Position} {groups : List Nat} {state next : ParseState} {t : Token}
  {room : Nat}

/-- A token that can be read is passed. -/
theorem runFreely_cons (h : state.next? scope t = some next) (rest : List Token) :
    state.runFreely scope finish (t :: rest) = next.runFreely scope finish rest := by
  rw [runFreely, h]

/-- A token that cannot be read ends the run. -/
theorem runFreely_stop (h : state.next? scope t = none) (rest : List Token) :
    state.runFreely scope finish (t :: rest) =
      ⟨state.outcome scope t, t :: rest, scope.depth + state.openGroups⟩ := by
  rw [runFreely, h]

/-- The calls of a token that can be read come before those of the tokens after it. -/
theorem heights_cons (h : state.next? scope t = some next) (rest : List Token) :
    state.heights scope finish groups (t :: rest) = state.callHeight scope groups t ::
      next.heights scope finish (state.groupsAfter scope groups t) rest := by
  rw [heights, h]

/-- The calls of a token that cannot be read are the last ones. -/
theorem heights_stop (h : state.next? scope t = none) (rest : List Token) :
    state.heights scope finish groups (t :: rest) = [state.callHeight scope groups t] := by
  rw [heights, h]

/-! ## Runs with little room -/

/-- Where the calls fit, a step is decided by the token alone. -/
theorem step?_of_le (h : state.callHeight scope groups t ≤ room) :
    state.step? room scope groups t = state.next? scope t := by
  rw [step?, if_neg (Nat.not_lt.mpr h)]

/-- Where the calls do not fit, there is no step. -/
theorem step?_of_lt (h : room < state.callHeight scope groups t) :
    state.step? room scope groups t = none := by
  rw [step?, if_pos h]

/-- Where the calls fit, stopping is decided by the token alone. -/
theorem stop_of_le (h : state.callHeight scope groups t ≤ room) (ahead : List Token) :
    state.stop room scope groups t ahead =
      ⟨some (state.outcome scope t), ahead, scope.depth + state.openGroups⟩ := by
  rw [stop, if_neg (Nat.not_lt.mpr h)]

/-- Where the calls do not fit, there is no outcome. -/
theorem stop_of_lt (h : room < state.callHeight scope groups t) (ahead : List Token) :
    state.stop room scope groups t ahead =
      ⟨none, ahead, scope.depth + state.enteredGroups⟩ := by
  rw [stop, if_pos h]

/-- A run whose calls all fit goes on as if there were room for any number of calls. -/
theorem run_eq_runFreely (tokens : List Token)
    (h : ∀ height ∈ state.heights scope finish groups tokens, height ≤ room) :
    let free := state.runFreely scope finish tokens
    state.run room scope finish groups tokens = ⟨some free.outcome, free.ahead, free.depth⟩ := by
  induction tokens generalizing state groups with
  | nil => exact stop_of_le (h _ List.mem_cons_self) []
  | cons t rest ih =>
      cases hnext : state.next? scope t with
      | none =>
          rw [heights_stop hnext, List.forall_mem_singleton] at h
          rw [run, step?_of_le h, hnext, runFreely_stop hnext]
          exact stop_of_le h (t :: rest)
      | some next =>
          rw [heights_cons hnext, List.forall_mem_cons] at h
          rw [run, step?_of_le h.1, hnext, runFreely_cons hnext]
          exact ih h.2

/-- Calls are counted for every token that is read and for the one at which the run stops. -/
theorem length_heights (scope : Scope) (finish : Position) (groups : List Nat) (state : ParseState)
    (tokens : List Token) :
    (state.heights scope finish groups tokens).length + (state.runFreely scope finish tokens).ahead.length =
      tokens.length + 1 := by
  induction tokens generalizing state groups with
  | nil => rfl
  | cons t rest ih =>
      cases hnext : state.next? scope t with
      | none => simp [heights_stop hnext, runFreely_stop hnext, Nat.add_comm]
      | some next =>
          rw [heights_cons hnext, runFreely_cons hnext, List.length_cons, List.length_cons,
            Nat.add_right_comm, ih]

/-- A run whose calls do not all fit stops without an outcome at the first token that takes too many, and
has come no further than a run with room for all of them. -/
theorem run_of_overflow (tokens : List Token)
    (h : ∃ height ∈ state.heights scope finish groups tokens, room < height) :
    (state.run room scope finish groups tokens).outcome = none ∧
      (state.run room scope finish groups tokens).ahead =
        tokens.drop ((state.heights scope finish groups tokens).findIdx (room < ·)) := by
  induction tokens generalizing state groups with
  | nil =>
      obtain ⟨height, hheight, hlt⟩ := h
      obtain rfl := List.mem_singleton.mp hheight
      rw [run, stop_of_lt hlt]
      simp
  | cons t rest ih =>
      by_cases hfirst : room < state.callHeight scope groups t
      · have hidx : (state.heights scope finish groups (t :: rest)).findIdx (room < ·) = 0 := by
          rw [heights, List.findIdx_cons, decide_eq_true hfirst, cond_true]
        rw [run, step?_of_lt hfirst, stop_of_lt hfirst, hidx]
        exact ⟨rfl, rfl⟩
      · have hle := Nat.not_lt.mp hfirst
        cases hnext : state.next? scope t with
        | none =>
            rw [heights_stop hnext] at h
            obtain ⟨height, hheight, hlt⟩ := h
            obtain rfl := List.mem_singleton.mp hheight
            exact absurd hlt hfirst
        | some next =>
            rw [heights_cons hnext, List.exists_mem_cons_iff] at h
            have hrest := h.resolve_left hfirst
            rw [run, step?_of_le hle, hnext, heights_cons hnext, List.findIdx_cons,
              decide_eq_false hfirst, cond_false, List.drop_succ_cons]
            exact ih hrest

/-- A run comes to an outcome exactly if all its calls fit. -/
theorem outcome_run_eq_some_iff (tokens : List Token) (outcome : Except Fault Expr) :
    (state.run room scope finish groups tokens).outcome = some outcome ↔
      (∀ height ∈ state.heights scope finish groups tokens, height ≤ room) ∧
        (state.runFreely scope finish tokens).outcome = outcome := by
  by_cases hfits : ∀ height ∈ state.heights scope finish groups tokens, height ≤ room
  · rw [run_eq_runFreely tokens hfits]
    simp only [Option.some.injEq, and_iff_right hfits]
  · have hover : ∃ height ∈ state.heights scope finish groups tokens, room < height := by
      simpa using hfits
    rw [(run_of_overflow tokens hover).1]
    simp only [hfits, false_and, reduceCtorEq]

end ParseState

/-! ## Calls on top of more calls -/

namespace ParseState

end ParseState

/-! ## How many calls a limit on the groups allows -/

/-- Each open group is reached by five calls at most from the one around it. -/
def CallsNest : List Nat → Prop
  | [] => True
  | group :: groups => group ≤ 5 * (groups.length + 1) ∧ CallsNest groups

/-- A term is reached by two calls from the group around it, and by two calls at the start. -/
theorem CallsNest.termCalls_le {groups : List Nat} (h : CallsNest groups) (scope : Scope) :
    scope.termCalls groups ≤ 5 * groups.length + 2 := by
  cases groups with
  | nil => cases hgoal : scope.goal <;> simp [Scope.termCalls, Goal.termCalls, hgoal]
  | cons group groups =>
      have := h.1
      simp only [Scope.termCalls, List.length_cons]
      omega

/-- The groups around the innermost one nest as well. -/
theorem CallsNest.tail {groups : List Nat} (h : CallsNest groups) : CallsNest groups.tail := by
  cases groups with
  | nil => trivial
  | cons group groups => exact h.2

/-- A factor is reached by two calls at most from its term. -/
theorem Level.factorCalls_le (level : Level) (term : Nat) : level.factorCalls term ≤ term + 2 := by
  unfold factorCalls
  split <;> omega

namespace ParseState

/-- The levels around the innermost group. -/
def around : ParseState → List Level
  | .group => []
  | .operand _ outer | .opened _ _ outer | .operator _ _ outer => outer

/-- A state keeps within the limit: the calls of its groups nest, and the levels around the innermost
group are no more than the limit allows. -/
structure Within (scope : Scope) (groups : List Nat) (state : ParseState) : Prop where
  nest : CallsNest groups
  length : groups.length = state.enteredGroups
  around : state.around.length ≤ scope.limit.toNat

variable {scope : Scope} {groups : List Nat} {state next : ParseState} {t : Token}

/-- A group that has just been opened and is not too deep counts under the limit. -/
theorem length_lt_of_not_tooDeep {outer : List Level} (hdepth : scope.depth = 0)
    (h : ¬tooDeep scope outer = true) : outer.length + 1 ≤ scope.limit.toNat := by
  simp only [tooDeep, hdepth, decide_eq_true_eq] at h
  omega

/-- The calls for a token where an operand is awaited. -/
theorem operandHeight_le (term : Nat) (level : Level) (t : Token) :
    operandHeight term level t ≤ level.factorCalls term + 4 := by
  have : term + 1 ≤ level.factorCalls term := by
    unfold Level.factorCalls
    split <;> omega
  unfold operandHeight
  split <;> omega

/-- A state that keeps within the limit takes a bounded number of calls for any token. -/
theorem Within.callHeight_le (h : state.Within scope groups) (hdepth : scope.depth = 0)
    (hstate : state ≠ .group) (t : Token) :
    state.callHeight scope groups t ≤ 5 * scope.limit.toNat + 9 := by
  have hterm := h.nest.termCalls_le scope
  have hlength := h.length
  have haround := h.around
  cases state with
  | group => contradiction
  | operand level outer =>
      have hheight := operandHeight_le (scope.termCalls groups) level t
      have hfactor := level.factorCalls_le (scope.termCalls groups)
      simp only [enteredGroups, ParseState.around] at hlength haround
      simp only [callHeight]
      omega
  | opened pos level outer =>
      simp only [enteredGroups, ParseState.around] at hlength haround
      simp only [callHeight]
      split
      · omega
      · split
        · omega
        · next hdeep =>
          have hroom := length_lt_of_not_tooDeep hdepth hdeep
          have hheight := operandHeight_le (scope.termCalls groups) .fresh t
          have hfactor : Level.fresh.factorCalls (scope.termCalls groups) =
              scope.termCalls groups + 1 := rfl
          omega
  | operator sum term outer =>
      simp only [enteredGroups, ParseState.around] at hlength haround
      simp only [callHeight]
      split <;> omega

/-- A token that neither opens nor closes a group leaves the open groups as they are. -/
theorem groupsAfter_of_ne (scope : Scope) (groups : List Nat) (state : ParseState)
    (hopen : t.kind ≠ .lparen) (hclose : t.kind ≠ .rparen) :
    state.groupsAfter scope groups t = groups := by
  unfold groupsAfter
  split <;> first | contradiction | rfl

/-- Reading a token where an operand is awaited keeps within the limit. -/
theorem within_operandNext? {level : Level} {outer : List Level} (hnest : CallsNest groups)
    (hlength : groups.length = outer.length) (haround : outer.length ≤ scope.limit.toNat)
    (h : operandNext? level outer t = some next) :
    next.Within scope (groupsAfter scope groups (.operand level outer) t) := by
  by_cases hopen : t.kind = .lparen
  · have hterm := hnest.termCalls_le scope
    have hfactor := level.factorCalls_le (scope.termCalls groups)
    simp only [operandNext?, hopen, Option.some.injEq] at h
    simp only [← h, groupsAfter, hopen, groupCalls]
    exact ⟨⟨by omega, hnest⟩, by simp [hlength, enteredGroups], haround⟩
  · have hclose : t.kind ≠ .rparen := by
      intro hclose
      simp [operandNext?, hclose] at h
    rw [groupsAfter_of_ne _ _ _ hopen hclose]
    unfold operandNext? at h
    split at h <;> cases h
    · exact ⟨hnest, hlength, haround⟩
    · exact ⟨hnest, hlength, haround⟩
    · exact ⟨hnest, hlength, haround⟩
    · contradiction

/-- Reading a token after a term keeps within the limit. -/
theorem within_operatorNext? {sum : Option Pending} {term : Expr} {outer : List Level}
    (hnest : CallsNest groups) (hlength : groups.length = outer.length)
    (haround : outer.length ≤ scope.limit.toNat) (h : operatorNext? sum term outer t = some next) :
    next.Within scope (groupsAfter scope groups (.operator sum term outer) t) := by
  by_cases hopen : t.kind = .lparen
  · have hterm := hnest.termCalls_le scope
    simp only [operatorNext?, hopen, Option.some.injEq] at h
    simp only [← h, groupsAfter, hopen, groupCalls]
    exact ⟨⟨by omega, hnest⟩, by simp [hlength, enteredGroups], haround⟩
  · by_cases hclose : t.kind = .rparen
    · cases outer with
      | nil => simp [operatorNext?, hclose] at h
      | cons level outer =>
          simp only [operatorNext?, hclose, Option.some.injEq] at h
          simp only [List.length_cons] at hlength haround
          simp only [← h, groupsAfter, hclose]
          refine ⟨hnest.tail, ?_, Nat.le_of_succ_le haround⟩
          rw [List.length_tail, hlength]
          rfl
    · rw [groupsAfter_of_ne _ _ _ hopen hclose]
      have hnext : next.enteredGroups = outer.length ∧ next.around = outer := by
        unfold operatorNext? at h
        simp only at h
        split at h <;> cases h <;> first | exact ⟨rfl, rfl⟩ | contradiction
      exact ⟨hnest, hlength.trans hnext.1.symm, by rwa [hnext.2]⟩

/-- Reading a token keeps within the limit. -/
theorem Within.next? (h : state.Within scope groups) (hdepth : scope.depth = 0)
    (hstate : state ≠ .group) (hnext : state.next? scope t = some next) :
    next.Within scope (state.groupsAfter scope groups t) := by
  obtain ⟨hnest, hlength, haround⟩ := h
  cases state with
  | group => contradiction
  | operand level outer => exact within_operandNext? hnest hlength haround hnext
  | opened pos level outer =>
      simp only [enteredGroups, ParseState.around] at hlength haround
      simp only [ParseState.next?] at hnext
      split at hnext
      · next hclose =>
        cases hnext
        simp only [groupsAfter, hclose]
        refine ⟨hnest.tail, ?_, haround⟩
        rw [List.length_tail, hlength]
        rfl
      · next hclose =>
        split at hnext
        · cases hnext
        · next hdeep =>
          -- The content of the group starts on a fresh level.
          have hroom : (level :: outer).length ≤ scope.limit.toNat :=
            length_lt_of_not_tooDeep hdepth hdeep
          have hgroups : groupsAfter scope groups (.opened pos level outer) t =
              groupsAfter scope groups (.operand .fresh (level :: outer)) t := rfl
          rw [hgroups]
          exact within_operandNext? hnest hlength hroom hnext
  | operator sum term outer =>
      simp only [ParseState.next?] at hnext
      split at hnext
      · cases hnext
      · exact within_operatorNext? hnest hlength haround hnext

/-- Only the start of a group leads nowhere but into it. -/
theorem ne_group_of_next? (h : state.next? scope t = some next) : next ≠ .group := by
  rintro rfl
  unfold next? operandNext? operatorNext? afterOperand at h
  grind

/-- The calls of a run that keeps within the limit are bounded. -/
theorem Within.heights_le (hdepth : scope.depth = 0) (finish : Position) (tokens : List Token)
    (hstate : state ≠ .group) (h : state.Within scope groups) :
    ∀ height ∈ state.heights scope finish groups tokens, height ≤ 5 * scope.limit.toNat + 9 := by
  induction tokens generalizing state groups with
  | nil =>
      rw [heights, List.forall_mem_singleton]
      exact h.callHeight_le hdepth hstate _
  | cons t rest ih =>
      have hfirst := h.callHeight_le hdepth hstate t
      cases hnext : state.next? scope t with
      | none =>
          rw [heights_stop hnext, List.forall_mem_singleton]
          exact hfirst
      | some next =>
          rw [heights_cons hnext, List.forall_mem_cons]
          exact ⟨hfirst, ih (ne_group_of_next? hnext) (h.next? hdepth hstate hnext)⟩

end ParseState

/-! ## Whole texts -/

namespace Expr

/-- The run over a sequence with room for all calls. -/
def parseRun (limit : Int) (s : TokenSequence) : ParseStop (Except Fault Expr) :=
  (ParseState.operand .fresh []).runFreely (.wholeText limit) s.finish s.body

/-- The expression that a sequence of tokens denotes, with room for all calls. -/
def parseFreely (limit : Int) (s : TokenSequence) : Except Fault Expr :=
  (parseRun limit s).outcome.bind ((Parser.ofSequence s limit).resume (parseRun limit s)).close

/-- The run over a sequence with room for some calls; two of them lead to its expression. -/
def parseRunIn (room : Nat) (limit : Int) (s : TokenSequence) :
    ParseStop (Option (Except Fault Expr)) :=
  (ParseState.operand .fresh []).run (room - 2) (.wholeText limit) s.finish [] s.body

/-- How many calls the tokens of a sequence take one after the other, on top of the two that lead to its
expression. -/
def callHeights (limit : Int) (s : TokenSequence) : List Nat :=
  (ParseState.operand .fresh []).heights (.wholeText limit) s.finish [] s.body

/-- There is room for all calls that parsing a sequence takes. -/
def CallsFit (room : Nat) (limit : Int) (s : TokenSequence) : Prop :=
  ∀ height ∈ callHeights limit s, height ≤ room - 2

instance (room : Nat) (limit : Int) (s : TokenSequence) : Decidable (CallsFit room limit s) :=
  inferInstanceAs (Decidable (∀ height ∈ callHeights limit s, height ≤ room - 2))

/-- The indices of the tokens for whose calls there is no room. -/
def overflowAt (room : Nat) (limit : Int) (s : TokenSequence) : Set Nat :=
  {index | ∃ height, (callHeights limit s)[index]? = some height ∧ room - 2 < height}

variable {room : Nat} {limit : Int} {s : TokenSequence}

/-- Five calls for each group under the limit are enough, and a few for what stands in the innermost. -/
theorem callsFit_of_limit (h : 5 * limit.toNat + 11 ≤ room) (s : TokenSequence) :
    CallsFit room limit s := by
  have hstart : (ParseState.operand .fresh []).Within (.wholeText limit) [] :=
    ⟨trivial, rfl, Nat.zero_le _⟩
  intro height hheight
  have hle := hstart.heights_le rfl s.finish s.body (by simp) height hheight
  simp only [Scope.limit_wholeText] at hle
  omega

/-- Parsing is the run over the sequence, and what a whole text makes of where it stops. -/
theorem parse_eq_conclude (room : Nat) (limit : Int) (s : TokenSequence) :
    parse room limit s = ((Parser.ofSequence s limit).resume (parseRunIn room limit s)).conclude
      (parseRunIn room limit s).outcome := rfl

/-- Where there is room for all calls, how much room there is does not matter. -/
theorem parse_of_callsFit (h : CallsFit room limit s) : parse room limit s = parseFreely limit s := by
  have hrun : parseRunIn room limit s = _ := ParseState.run_eq_runFreely s.body h
  rw [parse_eq_conclude, hrun]
  rfl

/-- All calls fit exactly if no token has calls that do not. -/
theorem overflowAt_eq_empty_iff : overflowAt room limit s = ∅ ↔ CallsFit room limit s := by
  rw [Set.eq_empty_iff_forall_notMem]
  constructor
  · intro h height hheight
    obtain ⟨index, hindex⟩ := List.mem_iff_getElem?.mp hheight
    by_contra hlt
    exact h index ⟨height, hindex, Nat.not_le.mp hlt⟩
  · rintro h index ⟨height, hindex, hlt⟩
    exact absurd (h height (List.mem_of_getElem? hindex)) (Nat.not_le.mpr hlt)

/-- Where not all calls fit, there is a first token whose calls do not. -/
theorem exists_isLeast_overflowAt (h : ¬CallsFit room limit s) :
    ∃ index t, IsLeast (overflowAt room limit s) index ∧ s.toList[index]? = some t := by
  have hnonempty : ∃ index, index ∈ overflowAt room limit s := by
    rwa [← overflowAt_eq_empty_iff, ← ne_eq, ← Set.nonempty_iff_ne_empty] at h
  classical
  obtain ⟨height, hheight, hlt⟩ := Nat.find_spec hnonempty
  have hindex := (List.getElem?_eq_some_iff.mp hheight).1
  have hlength : (callHeights limit s).length + _ = s.body.length + 1 :=
    ParseState.length_heights (.wholeText limit) s.finish [] (.operand .fresh []) s.body
  have hbound : Nat.find hnonempty < s.toList.length := by
    simp only [TokenSequence.toList, List.length_append, List.length_singleton]
    omega
  exact ⟨Nat.find hnonempty, s.toList[Nat.find hnonempty],
    ⟨Nat.find_spec hnonempty, fun index => Nat.find_min' hnonempty⟩, List.getElem?_eq_getElem hbound⟩

/-- Where there is no room for the calls of some token, the text counts as nested too deep, and the fault
stands at the first such token. -/
theorem parse_of_overflow {index : Nat} (h : IsLeast (overflowAt room limit s) index) {t : Token}
    (ht : s.toList[index]? = some t) :
    parse room limit s = .error ⟨.nestingTooDeep limit, some t.pos⟩ := by
  obtain ⟨⟨height, hheight, hlt⟩, hleast⟩ := h
  obtain ⟨hindex, rfl⟩ := List.getElem?_eq_some_iff.mp hheight
  have hfirst : (callHeights limit s).findIdx (room - 2 < ·) = index := by
    rw [List.findIdx_eq hindex]
    refine ⟨decide_eq_true hlt, fun earlier hearlier => ?_⟩
    by_contra hover
    have hmem : earlier ∈ overflowAt room limit s :=
      ⟨_, List.getElem?_eq_getElem (hearlier.trans hindex), by simpa using hover⟩
    exact absurd (hleast hmem) (Nat.not_le.mpr hearlier)
  obtain ⟨houtcome, hahead⟩ := ParseState.run_of_overflow s.body
    ⟨_, List.getElem_mem hindex, hlt⟩
  have hcurrent : (s.body.drop index).head?.getD ⟨.eof, s.finish, none⟩ = t := by
    rw [List.head?_drop]
    rw [TokenSequence.toList, List.getElem?_append] at ht
    split at ht
    · rw [ht]
      rfl
    · next hlast =>
      rw [List.getElem?_eq_none (Nat.not_lt.mp hlast), List.mem_singleton.mp (List.mem_of_getElem? ht)]
      rfl
  have hahead' : (parseRunIn room limit s).ahead = s.body.drop index := by
    rw [← hfirst]
    exact hahead
  rw [parse_eq_conclude, show (parseRunIn room limit s).outcome = none from houtcome]
  simp only [Parser.conclude, Parser.overflow, Parser.current, Parser.resume, hahead', hcurrent,
    Parser.ofSequence]

/-- Parsing returns a tree exactly if all calls fit and it does so with room for all calls. -/
theorem parse_eq_ok_iff_parseFreely {e : Expr} :
    parse room limit s = .ok e ↔ CallsFit room limit s ∧ parseFreely limit s = .ok e := by
  by_cases h : CallsFit room limit s
  · rw [parse_of_callsFit h, and_iff_right h]
  · obtain ⟨index, t, hleast, ht⟩ := exists_isLeast_overflowAt h
    rw [parse_of_overflow hleast ht]
    simp [h]

/-- Parsing has the outcome that it has with room for all calls, or the calls do not fit and the text
counts as nested too deep at some token. -/
theorem parse_eq_parseFreely_or (room : Nat) (limit : Int) (s : TokenSequence) :
    (CallsFit room limit s ∧ parse room limit s = parseFreely limit s) ∨
      ¬CallsFit room limit s ∧ ∃ t ∈ s.toList,
        parse room limit s = .error ⟨.nestingTooDeep limit, some t.pos⟩ := by
  by_cases h : CallsFit room limit s
  · exact .inl ⟨h, parse_of_callsFit h⟩
  · obtain ⟨index, t, hleast, ht⟩ := exists_isLeast_overflowAt h
    exact .inr ⟨h, t, List.mem_of_getElem? ht, parse_of_overflow hleast ht⟩

end Expr

end Calculator
