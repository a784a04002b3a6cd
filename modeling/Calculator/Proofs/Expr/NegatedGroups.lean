import Calculator.Proofs.Expr.Covering

/-!
# The calls of negated groups

No groups take more calls than those with a sign before each: a group in another one is reached by five calls,
as many as a group can be. So a number in `n` such groups needs room for `5 * n + 7` calls
(`Expr.callsFit_negatedGroups_iff`), and for two hundred groups that is room for 1007. A limit on groups does not
guard against that: where there is less room, the text counts as nested too deep although its groups are within
the limit (`Expr.parse_negatedGroups`).
-/

set_option autoImplicit false

namespace Calculator

/-- The tokens of a number in some groups, with a minus before each. They all stand at one position, for
positions take no calls. -/
def Token.negatedGroups (pos : Position) (value : Float) : Nat → List Token
  | 0 => [⟨.number, pos, some value⟩]
  | n + 1 => ⟨.minus, pos, none⟩ :: ⟨.lparen, pos, none⟩ ::
      (negatedGroups pos value n ++ [⟨.rparen, pos, none⟩])

/-- The tree of a number with some minus signs before it. -/
def Expr.negated (pos : Position) (value : Float) : Nat → Expr
  | 0 => .number value pos
  | n + 1 => .unary .minus (negated pos value n) pos

section

variable (pos : Position) (value : Float)

/-- The tokens start with a number or a minus. -/
theorem Token.exists_negatedGroups_eq_cons (n : Nat) :
    ∃ t rest, negatedGroups pos value n = t :: rest ∧ t.kind ≠ .rparen := by
  cases n with
  | zero => exact ⟨_, _, rfl, by simp⟩
  | succ n => exact ⟨_, _, rfl, by simp⟩

/-- No end mark is among the tokens. -/
theorem Token.kind_ne_eof_of_mem_negatedGroups (n : Nat) :
    ∀ t ∈ negatedGroups pos value n, t.kind ≠ .eof := by
  induction n with
  | zero => simp [negatedGroups]
  | succ n ih =>
      simp only [negatedGroups, List.forall_mem_cons, List.forall_mem_append]
      exact ⟨by simp, by simp, ih, by simp⟩

/-- The tokens denote the negated number, and their groups nest as deep as there are groups. -/
theorem Token.derives_negatedGroups (n : Nat) :
    Derives .factor (negatedGroups pos value n) n (Expr.negated pos value n) := by
  induction n with
  | zero =>
      have hnumber : (⟨.number, pos, some value⟩ : Token).kind = .number := rfl
      exact .number hnumber
  | succ n ih =>
      have hminus : (⟨.minus, pos, none⟩ : Token).kind.additive? = some .minus := rfl
      exact .sign hminus (.group (.fullGroup rfl (.term (.factor ih)) rfl))

namespace ParseState

variable {pos value} {scope : Scope} {finish : Position} {room : Nat}

/-- Where a group is not too deep, its first token takes the calls that it takes as an operand. -/
theorem heights_opened {groups : List Nat} {level : Level} {outer : List Level} {t : Token}
    (hdeep : tooDeep scope outer = false) (ht : t.kind ≠ .rparen) (rest : List Token) :
    (opened pos level outer).heights scope finish groups (t :: rest) =
      (operand .fresh (level :: outer)).heights scope finish groups (t :: rest) := by
  have hnext : (opened pos level outer).next? scope t = operandNext? .fresh (level :: outer) t := by
    simp [next?, ht, hdeep]
  have hheight : (opened pos level outer).callHeight scope groups t =
      (operand .fresh (level :: outer)).callHeight scope groups t := by
    simp [callHeight, ht, hdeep]
  rw [heights, heights, hheight, hnext]
  rfl

/-- Within the limit, negated groups take five calls for each group on top of the term, and three for the
number. -/
theorem heights_negatedGroups_le_iff (n : Nat) (groups : List Nat) (outer : List Level)
    (hdeep : (scope.depth + outer.length + n : Nat) ≤ scope.limit) (rest : List Token) :
    (∀ height ∈ (operand .fresh outer).heights scope finish groups
        (Token.negatedGroups pos value n ++ rest), height ≤ room) ↔
      5 * n + scope.termCalls groups + 3 ≤ room ∧
        ∀ height ∈ (afterOperand .fresh (Expr.negated pos value n) outer).heights scope finish groups rest,
          height ≤ room := by
  induction n generalizing groups outer rest with
  | zero =>
      rw [Token.negatedGroups, List.singleton_append, heights_cons rfl, List.forall_mem_cons]
      simp only [callHeight, operandHeight, Level.factorCalls, Level.fresh, List.isEmpty_nil, if_true]
      exact and_congr (by omega) Iff.rfl
  | succ n ih =>
      -- The sign and the opening lead into the group, and the closing leads out of it.
      obtain ⟨t, later, hhead, ht⟩ := Token.exists_negatedGroups_eq_cons pos value n
      have hopen : tooDeep scope outer = false := by
        rw [tooDeep, decide_eq_false_iff_not]
        omega
      have hinside : ∀ more, (opened pos (Level.fresh.withSign .minus pos) outer).heights scope finish
          ((scope.termCalls groups + 3) :: groups) (Token.negatedGroups pos value n ++ more) =
            (operand .fresh (Level.fresh.withSign .minus pos :: outer)).heights scope finish
              ((scope.termCalls groups + 3) :: groups) (Token.negatedGroups pos value n ++ more) := by
        intro more
        rw [hhead, List.cons_append]
        exact heights_opened hopen ht _
      have hterm : scope.termCalls ((scope.termCalls groups + 3) :: groups) = scope.termCalls groups + 5 := rfl
      have hsign : (operand .fresh outer).callHeight scope groups ⟨.minus, pos, none⟩ =
          scope.termCalls groups + 3 := rfl
      have hopening : (operand (Level.fresh.withSign .minus pos) outer).callHeight scope groups
          ⟨.lparen, pos, none⟩ = scope.termCalls groups + 6 := rfl
      have hclosing : (afterOperand .fresh (Expr.negated pos value n)
          (Level.fresh.withSign .minus pos :: outer)).callHeight scope
            ((scope.termCalls groups + 3) :: groups) ⟨.rparen, pos, none⟩ = scope.termCalls groups + 8 := rfl
      rw [Token.negatedGroups, List.cons_append, List.cons_append, List.append_assoc, List.singleton_append,
        heights_cons rfl, heights_cons rfl, List.forall_mem_cons, List.forall_mem_cons, hsign]
      show _ ∧ _ ∧ (∀ height ∈ (opened pos (Level.fresh.withSign .minus pos) outer).heights scope finish
        ((scope.termCalls groups + 3) :: groups) _, height ≤ room) ↔ _
      rw [hinside, ih _ _ (by rw [List.length_cons]; omega), heights_cons rfl, List.forall_mem_cons, hterm,
        hclosing]
      constructor
      · rintro ⟨-, -, hroom, -, hrest⟩
        exact ⟨by omega, hrest⟩
      · rintro ⟨hroom, hrest⟩
        exact ⟨by omega, hopening.trans_le (by omega), by omega, by omega, hrest⟩

end ParseState

/-- A number in some negated groups that are within the limit has room for its calls exactly if there is room
for five for each group and seven more. -/
theorem Expr.callsFit_negatedGroups_iff {limit room n : Nat} (hn : n ≤ limit) (finish : Position) :
    CallsFit room limit ⟨Token.negatedGroups pos value n, finish⟩ ↔ 5 * n + 7 ≤ room := by
  have hheights : (∀ height ∈ (ParseState.operand .fresh []).heights (.wholeText limit) finish []
      (Token.negatedGroups pos value n ++ []), height ≤ room - 2) ↔ _ :=
    ParseState.heights_negatedGroups_le_iff n [] [] (by simpa using hn) []
  rw [List.append_nil] at hheights
  have hstart : (Scope.wholeText limit).termCalls [] = 2 := rfl
  have hend : ∀ height ∈ (ParseState.afterOperand .fresh (Expr.negated pos value n) []).heights
      (.wholeText limit) finish [] [], height = 5 := by
    intro height hheight
    exact List.mem_singleton.mp hheight
  rw [CallsFit]
  refine hheights.trans ⟨fun h => by omega, fun h => ⟨by omega, fun height hheight => ?_⟩⟩
  rw [hend height hheight]
  omega

/-- With less room than five calls for each group and seven more, a number in negated groups counts as nested
too deep, and with that much room it is parsed, whatever greater number of groups the limit allows. -/
theorem Expr.parse_negatedGroups {limit room n : Nat} (hn : n ≤ limit) (finish : Position) :
    (5 * n + 7 ≤ room → parse room limit ⟨Token.negatedGroups pos value n, finish⟩ =
      .ok (negated pos value n)) ∧
    (room < 5 * n + 7 → ∃ t ∈ (TokenSequence.mk (Token.negatedGroups pos value n) finish).toList,
      parse room limit ⟨Token.negatedGroups pos value n, finish⟩ =
        .error ⟨.nestingTooDeep limit, some t.pos⟩) := by
  have hfits : CallsFit room limit ⟨Token.negatedGroups pos value n, finish⟩ ↔ 5 * n + 7 ≤ room :=
    callsFit_negatedGroups_iff pos value hn finish
  constructor
  · intro hroom
    rw [parse_of_callsFit (hfits.mpr hroom)]
    exact (Token.derives_negatedGroups pos value n).factor.term.whole.parseFreely_eq_ok
      (Token.kind_ne_eof_of_mem_negatedGroups pos value n) finish hn
  · intro hroom
    obtain ⟨hover, -⟩ | ⟨-, ht⟩ := parse_eq_parseFreely_or room limit ⟨Token.negatedGroups pos value n, finish⟩
    · have := hfits.mp hover
      omega
    · exact ht

end

end Calculator
