import Calculator.Proofs.Expr.Origin
import Calculator.Proofs.Expr.Viability
import Calculator.Proofs.Position.Relocation

/-!
# Two lists of tokens with the same words

Two lists of tokens that agree in kinds and values, and differ in positions, need not come from one
another by moving positions: what stands at one place in the first may stand at several places in the
second. But both come from a third list, in which the position of a token is its index. Its positions are
moved to those of the first list, or to those of the second, and every stage moves them along.

So the outcomes differ in positions only, and a fault of parsing, which stands at some token of the third
list, stands at the token of the same index in the other two.
-/

set_option autoImplicit false

namespace Calculator

/-! ## Positions by index -/

namespace Token

/-- Tokens moved to the positions that are their indices. -/
def indexed (tokens : List Token) : List Token :=
  tokens.mapIdx fun index t => { t with pos := ⟨index, 0⟩ }

/-- The position that a list gives to the token of an index. -/
def placeIn (tokens : List Token) (index : Position) : Position :=
  (tokens[index.line.toNat]?.map Token.pos).getD index

/-- The index of a token is placed where the token stands. -/
theorem placeIn_of_getElem? {tokens : List Token} {index : Nat} {t : Token}
    (h : tokens[index]? = some t) : placeIn tokens ⟨index, 0⟩ = t.pos := by
  simp [placeIn, h]

/-- Moving every index to the position of its token gives the tokens back. -/
theorem map_relocate_indexed_of {tokens : List Token} {f : Position → Position}
    (hf : ∀ (index : Nat) (t : Token), tokens[index]? = some t → f ⟨index, 0⟩ = t.pos) :
    (indexed tokens).map (relocate f) = tokens := by
  apply List.ext_getElem?
  intro index
  rw [indexed, List.getElem?_map, List.getElem?_mapIdx]
  cases h : tokens[index]? with
  | none => rfl
  | some t => simp [relocate, hf index t h]

/-- The indexed tokens are moved back to where they stood. -/
theorem map_relocate_indexed (tokens : List Token) :
    (indexed tokens).map (relocate (placeIn tokens)) = tokens :=
  map_relocate_indexed_of fun _ _ => placeIn_of_getElem?

/-- Tokens that differ in their positions only are indexed alike. -/
theorem indexed_eq_of_words_eq {tokens tokens' : List Token}
    (h : tokens.map word = tokens'.map word) : indexed tokens = indexed tokens' := by
  apply List.ext_getElem?
  intro index
  have hword := congrArg (·[index]?) h
  simp only [List.getElem?_map] at hword
  rw [indexed, indexed, List.getElem?_mapIdx, List.getElem?_mapIdx]
  cases hfirst : tokens[index]? with
  | none =>
      cases hsecond : tokens'[index]? with
      | none => rfl
      | some t' => simp [hfirst, hsecond] at hword
  | some t =>
      cases hsecond : tokens'[index]? with
      | none => simp [hfirst, hsecond] at hword
      | some t' =>
          have hsame : t.kind = t'.kind ∧ t.value = t'.value := by
            simpa [hfirst, hsecond, word] using hword
          simp [hsame]

/-- An indexed token comes from a token at its index. -/
theorem exists_index_of_mem_indexed {tokens : List Token} {t : Token} (h : t ∈ indexed tokens) :
    ∃ (index : Nat) (original : Token), tokens[index]? = some original ∧
      t = { original with pos := ⟨index, 0⟩ } := by
  obtain ⟨index, hindex, rfl⟩ := List.mem_mapIdx.mp h
  exact ⟨index, tokens[index], List.getElem?_eq_getElem hindex, rfl⟩

end Token

namespace TokenSequence

/-- The sequence of a list moves along with the tokens of the list. -/
theorem ofList?_relocate (f : Position → Position) (tokens : List Token) :
    ofList? (tokens.map (Token.relocate f)) = (ofList? tokens).map (relocate f) := by
  unfold ofList?
  rw [List.getLast?_map, List.find?_map, List.takeWhile_map]
  simp only [Function.comp_def, Token.kind_relocate, Option.any_map]
  split
  · cases tokens.find? (·.kind == .eof) <;> rfl
  · rfl

variable {tokens : List Token} {s : TokenSequence}

/-- The tokens of a sequence are those before the first end mark. -/
theorem body_eq_of_ofList? (h : ofList? tokens = some s) :
    s.body = tokens.takeWhile (·.kind != .eof) := by
  unfold ofList? at h
  split at h
  · obtain ⟨mark, -, rfl⟩ := Option.map_eq_some_iff.mp h
    rfl
  · cases h

/-- No token of a sequence is an end mark. -/
theorem kind_ne_eof_of_ofList? (h : ofList? tokens = some s) : ∀ t ∈ s.body, t.kind ≠ .eof := by
  intro t ht
  rw [body_eq_of_ofList? h] at ht
  simpa using List.mem_takeWhile_imp ht

/-- The tokens of a sequence are tokens of the list. -/
theorem body_subset_of_ofList? (h : ofList? tokens = some s) : s.body ⊆ tokens := by
  rw [body_eq_of_ofList? h]
  exact (List.takeWhile_sublist _).subset

/-- The tokens of a sequence, the end mark included, stand where tokens of the list stand. -/
theorem exists_pos_of_ofList? (h : ofList? tokens = some s) {t : Token} (ht : t ∈ s.toList) :
    ∃ original ∈ tokens, original.pos = t.pos := by
  rcases List.mem_append.mp ht with ht | ht
  · exact ⟨t, body_subset_of_ofList? h ht, rfl⟩
  · rw [List.mem_singleton.mp ht]
    unfold ofList? at h
    split at h
    · obtain ⟨mark, hmark, rfl⟩ := Option.map_eq_some_iff.mp h
      exact ⟨mark, List.mem_of_find?_eq_some hmark, rfl⟩
    · cases h

/-- A list that closes with an end mark has a sequence. -/
theorem exists_ofList? (h : tokens.getLast?.map Token.kind = some .eof) :
    ∃ s, ofList? tokens = some s := by
  obtain ⟨mark, hlast, hmark⟩ := Option.map_eq_some_iff.mp h
  have hfind : (tokens.find? (·.kind == .eof)).isSome := by
    rw [List.find?_isSome]
    exact ⟨mark, List.mem_of_getLast? hlast, by simp [hmark]⟩
  obtain ⟨first, hfirst⟩ := Option.isSome_iff_exists.mp hfind
  refine ⟨⟨tokens.takeWhile (·.kind != .eof), first.pos⟩, ?_⟩
  simp [ofList?, hlast, hmark, hfirst]

end TokenSequence

/-! ## Trees of any limit -/

namespace Expr

variable {s : TokenSequence} {e : Expr} {limit : Int}

/-- With room for all calls, a larger limit leads to the same tree. -/
theorem parseFreely_of_le (hbody : ∀ t ∈ s.body, t.kind ≠ .eof) {limit' : Int} (hle : limit ≤ limit')
    (h : parseFreely limit s = .ok e) : parseFreely limit' s = .ok e := by
  rw [parseFreely_eq_ok_iff hbody] at h ⊢
  obtain ⟨read, ahead, reached, hsplit, hread, -, hrun⟩ := ParseState.exists_runFreely_eq
    (.wholeText limit) s.finish (.operand .fresh []) s.body
  rw [parseRun, hrun] at h
  obtain ⟨houtcome, rfl⟩ := h
  rw [List.append_nil] at hsplit
  have hread' := ParseState.after?_of_le hle hread
  have hrun' := ParseState.runFreely_append_of_after? hread' s.finish []
  rw [List.append_nil, ← hsplit] at hrun'
  rw [parseRun, hrun', ParseState.runFreely]
  refine ⟨?_, rfl⟩
  -- Only a complete term ends a text, and then the limit does not matter.
  cases reached with
  | group | operand level outer => cases houtcome
  | opened pos level outer =>
      simp only [ParseState.outcome] at houtcome
      split at houtcome <;> cases houtcome
  | operator sum term outer => exact houtcome

/-- With room for all calls, a text that is parsed to a tree denotes it, whatever the limit. -/
theorem derives_of_parseFreely (hbody : ∀ t ∈ s.body, t.kind ≠ .eof)
    (h : parseFreely limit s = .ok e) : ∃ n, Derives .whole s.body n e := by
  have hlarge := parseFreely_of_le hbody (Int.le_max_left limit 0) h
  obtain ⟨n, -, hderives⟩ := exists_derives_of_parseFreely hbody (Int.le_max_right limit 0) hlarge
  exact ⟨n, hderives⟩

/-- A text that is parsed to a tree denotes it, whatever the limit and the room for calls. -/
theorem derives_of_parse {room : Nat} (hbody : ∀ t ∈ s.body, t.kind ≠ .eof)
    (h : parse room limit s = .ok e) : ∃ n, Derives .whole s.body n e :=
  derives_of_parseFreely hbody (parse_eq_ok_iff_parseFreely.mp h).2

/-- Where every number has a value, parsing returns trees of the language, whatever the limit and the room
for calls. -/
theorem arithmetic_of_parse {room : Nat} (hbody : ∀ t ∈ s.body, t.kind ≠ .eof)
    (hvalue : ∀ t ∈ s.body, t.kind = .number → t.value.isSome) (h : parse room limit s = .ok e) :
    e.Arithmetic := by
  obtain ⟨n, hderives⟩ := derives_of_parse hbody h
  exact hderives.arithmetic hvalue

end Expr

/-! ## Outcomes without positions -/

/-- A tree with every node moved to one place. -/
def Expr.unplaced (e : Expr) : Expr := e.relocate fun _ => .start

/-- Moving the positions of a tree does not change the tree without them. -/
theorem Expr.unplaced_relocate (f : Position → Position) (e : Expr) :
    (e.relocate f).unplaced = e.unplaced := by
  induction e with
  | number value pos | empty pos => rfl
  | foreign label payload pos => cases pos <;> rfl
  | unary op operand pos ih => exact congrArg (Expr.unary op · .start) ih
  | binary op left right pos ihl ihr =>
      exact congrArg₂ (Expr.binary op · · .start) ihl ihr

/-- Moving the positions of a program does not change its opcodes. -/
theorem opcodes_relocate (f : Position → Position) (code : List Instr) :
    (code.map (Instr.relocate f)).map Instr.opcode = code.map Instr.opcode := by
  simp [Instr.relocate]

/-- Moving positions changes neither the result nor the cause of a fault. -/
theorem Outcome.cause_relocate {α : Type} (f : Position → Position) (x : Except Fault α) :
    (relocate f id x).mapError Fault.cause = x.mapError Fault.cause := by
  cases x <;> rfl

section Words

variable {tokens tokens' : List Token} (hwords : tokens.map Token.word = tokens'.map Token.word)
include hwords

/-- Lists with the same words have sequences that come from one sequence, whose positions are the indices
of the first list. -/
theorem exists_common_sequence (hmark : tokens.getLast?.map Token.kind = some .eof) :
    ∃ s, TokenSequence.ofList? (Token.indexed tokens) = some s ∧
      TokenSequence.ofList? tokens = some (s.relocate (Token.placeIn tokens)) ∧
      TokenSequence.ofList? tokens' = some (s.relocate (Token.placeIn tokens')) := by
  have hfirst : TokenSequence.ofList? tokens = (TokenSequence.ofList? (Token.indexed tokens)).map
      (TokenSequence.relocate (Token.placeIn tokens)) := by
    rw [← TokenSequence.ofList?_relocate, Token.map_relocate_indexed]
  have hsecond : TokenSequence.ofList? tokens' = (TokenSequence.ofList? (Token.indexed tokens)).map
      (TokenSequence.relocate (Token.placeIn tokens')) := by
    rw [Token.indexed_eq_of_words_eq hwords, ← TokenSequence.ofList?_relocate,
      Token.map_relocate_indexed]
  obtain ⟨first, hsome⟩ := TokenSequence.exists_ofList? hmark
  rw [hfirst] at hsome
  obtain ⟨s, hs, -⟩ := Option.map_eq_some_iff.mp hsome
  exact ⟨s, hs, by rw [hfirst, hs, Option.map_some], by rw [hsecond, hs, Option.map_some]⟩

/-- An index at which the first list has a token is one at which the second list has one. -/
theorem exists_getElem?_of_words_eq {index : Nat} {t : Token} (h : tokens[index]? = some t) :
    ∃ t', tokens'[index]? = some t' := by
  have hword := congrArg (·[index]?) hwords
  simp only [List.getElem?_map, h, Option.map_some] at hword
  obtain ⟨t', ht', -⟩ := Option.map_eq_some_iff.mp hword.symm
  exact ⟨t', ht'⟩

end Words

/-- A fault of parsing a list whose positions are indices stands at an index of the list. -/
theorem Expr.exists_index_of_parse_error {tokens : List Token} {s : TokenSequence}
    (hs : TokenSequence.ofList? (Token.indexed tokens) = some s) {room : Nat} {limit : Int}
    {fault : Fault} (h : Expr.parse room limit s = .error fault) :
    ∃ (index : Nat) (t : Token), tokens[index]? = some t ∧ fault.pos = some ⟨index, 0⟩ := by
  obtain ⟨t, ht, hpos⟩ := Expr.exists_pos_of_parse h
  obtain ⟨original, horiginal, hplace⟩ := TokenSequence.exists_pos_of_ofList? hs ht
  obtain ⟨index, source, hsource, rfl⟩ := Token.exists_index_of_mem_indexed horiginal
  exact ⟨index, source, hsource, by rw [hpos, ← hplace]⟩

/-- For any two lists of tokens that agree index by index in kind and value, close with an end mark and
give a value to every number, for any limit and any room for calls: either both are parsed, to trees that
differ in positions only, and the trees are compiled to programs of the same instructions, with the same
value or the same cause of a fault; or both are refused for the same cause, at the token of the same index.
And so any two texts whose tokens agree in kind and value have the same value or the same cause of a fault. -/
theorem positions_carry_no_meaning :
    (∀ (room : Nat) (tokens tokens' : List Token) (limit : Int),
      tokens.map Token.word = tokens'.map Token.word →
      tokens.getLast?.map Token.kind = some .eof →
      (∀ t ∈ tokens, t.kind = .number → t.value.isSome) →
      ∃ s s', TokenSequence.ofList? tokens = some s ∧ TokenSequence.ofList? tokens' = some s' ∧
        ((∃ e e' code code', Expr.parse room limit s = .ok e ∧ Expr.parse room limit s' = .ok e' ∧
            e.unplaced = e'.unplaced ∧ e.compile = .ok code ∧ e'.compile = .ok code' ∧
            code.map Instr.opcode = code'.map Instr.opcode ∧
            (execute code).mapError Fault.cause = (execute code').mapError Fault.cause) ∨
          ∃ (index : Nat) (t t' : Token) (cause : Cause), tokens[index]? = some t ∧
            tokens'[index]? = some t' ∧
            Expr.parse room limit s = .error ⟨cause, some t.pos⟩ ∧
            Expr.parse room limit s' = .error ⟨cause, some t'.pos⟩)) ∧
    ∀ (room : Nat) (text text' : String) (s s' : TokenSequence) (line line' : Int),
      Token.scan text = .ok s → Token.scan text' = .ok s' →
      s.toList.map Token.word = s'.toList.map Token.word →
      (evaluate room text line).outcome.mapError Fault.cause =
        (evaluate room text' line').outcome.mapError Fault.cause := by
  refine ⟨?_, ?_⟩
  · intro room tokens tokens' limit hwords hmark hvalue
    obtain ⟨s, hs, hfirst, hsecond⟩ := exists_common_sequence hwords hmark
    refine ⟨_, _, hfirst, hsecond, ?_⟩
    rw [Expr.parse_relocate, Expr.parse_relocate]
    cases hparse : Expr.parse room limit s with
    | ok e =>
        have hnumber : ∀ t ∈ s.body, t.kind = .number → t.value.isSome := by
          intro t ht
          obtain ⟨index, original, horiginal, rfl⟩ := Token.exists_index_of_mem_indexed
            (TokenSequence.body_subset_of_ofList? hs ht)
          exact hvalue original (List.mem_of_getElem? horiginal)
        have harith := Expr.arithmetic_of_parse (TokenSequence.kind_ne_eof_of_ofList? hs) hnumber hparse
        refine .inl ⟨_, _, e.postorder.code.map (Instr.relocate (Token.placeIn tokens)),
          e.postorder.code.map (Instr.relocate (Token.placeIn tokens')), rfl, rfl, ?_, ?_, ?_, ?_, ?_⟩
        · rw [Expr.unplaced_relocate, Expr.unplaced_relocate]
        · rw [Expr.compile_relocate, harith.compile_eq, Outcome.relocate_ok]
        · rw [Expr.compile_relocate, harith.compile_eq, Outcome.relocate_ok]
        · rw [opcodes_relocate, opcodes_relocate]
        · rw [execute_relocate, execute_relocate, Outcome.cause_relocate, Outcome.cause_relocate]
    | error fault =>
        obtain ⟨index, t, ht, hpos⟩ := Expr.exists_index_of_parse_error hs hparse
        obtain ⟨t', ht'⟩ := exists_getElem?_of_words_eq hwords ht
        refine .inr ⟨index, t, t', fault.cause, ht, ht', ?_, ?_⟩
        · rw [Outcome.relocate_error, Fault.relocate, hpos, Option.map_some,
            Token.placeIn_of_getElem? ht]
        · rw [Outcome.relocate_error, Fault.relocate, hpos, Option.map_some,
            Token.placeIn_of_getElem? ht']
  · intro room text text' s s' line line' hscan hscan' hwords
    have hbody : s.words = s'.words := by
      simpa [TokenSequence.toList, TokenSequence.words, TokenSequence.endMark, Token.word] using hwords
    have hresult : ∀ {text : String} {s : TokenSequence}, Token.scan text = .ok s →
        (textValue (room - 1) text).mapError Fault.cause = s.result (room - 2) Parser.defaultLimit := by
      intro text s hscan
      rw [textValue, hscan]
      rfl
    show (textValue (room - 1) text).mapError Fault.cause =
      (textValue (room - 1) text').mapError Fault.cause
    rw [hresult hscan, hresult hscan', TokenSequence.result_eq_of_words_eq _ _ hbody]

/-- The tokens of `2(3)`, in their places and all in one place, are parsed alike; and so is an empty
group, whatever stands between its parentheses. -/
theorem positions_carry_no_meaning_two_layouts :
    let tokens : List Token := [⟨.number, ⟨1, 1⟩, some 2⟩, ⟨.lparen, ⟨1, 2⟩, none⟩,
      ⟨.number, ⟨1, 3⟩, some 3⟩, ⟨.rparen, ⟨1, 4⟩, none⟩, ⟨.eof, ⟨1, 5⟩, none⟩]
    let tokens' : List Token := tokens.map (Token.relocate fun _ => ⟨7, 7⟩)
    (∃ s s' e e', TokenSequence.ofList? tokens = some s ∧ TokenSequence.ofList? tokens' = some s' ∧
      Expr.parse 50 1 s = .ok e ∧ Expr.parse 50 1 s' = .ok e' ∧ e.unplaced = e'.unplaced) ∧
    (evaluate 50 "()" 1).outcome.mapError Fault.cause =
      (evaluate 50 "( ; nothing\n)" 4).outcome.mapError Fault.cause := by
  intro tokens tokens'
  refine ⟨?_, ?_⟩
  · obtain ⟨s, s', hs, hs', ⟨e, e', -, -, he, he', hsame, -⟩ | ⟨index, t, t', cause, -, -, hfault, -⟩⟩ :=
      positions_carry_no_meaning.1 50 tokens tokens' 1 rfl rfl (by decide)
    · exact ⟨s, s', e, e', hs, hs', he, he', hsame⟩
    · cases hs
      cases hfault
  · have hscan : Token.scan "()" =
        .ok ⟨[⟨.lparen, ⟨1, 1⟩, none⟩, ⟨.rparen, ⟨1, 2⟩, none⟩], ⟨1, 3⟩⟩ := by cbv
    have hscan' : Token.scan "( ; nothing\n)" =
        .ok ⟨[⟨.lparen, ⟨1, 1⟩, none⟩, ⟨.rparen, ⟨2, 1⟩, none⟩], ⟨2, 2⟩⟩ := by cbv
    exact positions_carry_no_meaning.2 50 _ _ _ _ 1 4 hscan hscan' rfl

end Calculator
