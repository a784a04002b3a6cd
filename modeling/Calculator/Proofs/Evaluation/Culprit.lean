import Calculator.Proofs.Evaluation.Calls
import Calculator.Proofs.Expr.Origin
import Calculator.Proofs.Token.Lexeme

/-!
# Every fault points at its culprit

A position is made by the scanner, kept by the token, the node and the instruction, and comes out in a
fault. Whatever stage an evaluation stops at, the text at the position of the fault is what the fault
is about. No text can bring about a fault of the compiler, or an ill-formed program. A text whose calls do
not fit counts as nested too deep at the token for whose calls there was no room, which may be any token.
-/

set_option autoImplicit false

namespace Calculator

/-- In a text, a fault stands where its culprit starts. -/
def Fault.StandsIn (cs : List Char) (fault : Fault) : Prop :=
  ∃ pos rest, fault.pos = some pos ∧ Position.start.Reaches cs pos rest ∧ fault.cause.Blames rest

/-- In a text, a fault says that the calls do not fit, and stands where a lexeme starts or at the end. -/
def Fault.Overflows (cs : List Char) (fault : Fault) : Prop :=
  ∃ pos rest, fault = ⟨.nestingTooDeep Parser.defaultLimit, some pos⟩ ∧
    Position.start.Reaches cs pos rest ∧ ∃ kind, Token.kindAt? rest = some kind

/-- The names of the causes that a text can bring about. -/
def Cause.textKinds : List String :=
  ["UnexpectedChar", "InvalidNumber", "UnexpectedToken", "UnexpectedEndOfInput", "NestingTooDeep",
    "DivisionByZero"]

/-- A cause that blames a place of a text is of one of the six kinds. -/
theorem Cause.Blames.kind_mem_textKinds {cause : Cause} {rest : List Char} (h : cause.Blames rest) :
    cause.kind ∈ Cause.textKinds := by
  cases cause with
  | unsupportedOperator | stackUnderflow | excessValues | other => exact h.elim
  | _ => simp [Cause.kind, Cause.textKinds]

namespace Token

variable {cs : List Char} {t : Token}

/-- Where a token that is no number stands, there is its symbol. -/
theorem StandsIn.head?_of_kind {p : Position} (h : t.StandsIn p cs) {kind : TokenKind}
    (hkind : t.kind = kind) (hne : kind ≠ .number) :
    ∃ c rest, p.Reaches cs t.pos (c :: rest) ∧ ofSymbol? c = some kind := by
  obtain ⟨hmark, -, rest, hreaches, hrest⟩ := h
  rw [hkind] at hmark hrest
  cases rest with
  | nil =>
      cases hrest
      contradiction
  | cons c rest =>
      refine ⟨c, rest, hreaches, ?_⟩
      by_cases hdigit : Text.isDigit c = true
      · rw [kindAt?_eq_of_isDigit hdigit] at hrest
        cases hrest
        contradiction
      · rw [kindAt?_eq_of_not_isDigit hdigit] at hrest
        exact hrest

/-- A token that cannot stand where it stands is the culprit. -/
theorem StandsIn.unexpected (h : t.StandsIn .start cs) (expected : Option String) :
    (t.unexpected expected).StandsIn cs := by
  obtain ⟨hmark, -, rest, hreaches, hrest⟩ := h
  rw [unexpected_of_ne_eof hmark]
  refine ⟨t.pos, rest, rfl, hreaches, ?_, t.kind, hrest, rfl⟩
  rintro rfl
  exact hmark (Option.some.inj hrest).symm

/-- The opening of a group is the culprit if the group is too deep. -/
theorem StandsIn.nestingTooDeep (h : t.StandsIn .start cs) (hkind : t.kind = .lparen) (limit : Int) :
    Fault.StandsIn cs ⟨.nestingTooDeep limit, some t.pos⟩ := by
  obtain ⟨c, rest, hreaches, hc⟩ := h.head?_of_kind hkind (by simp)
  have hparen : c = '(' := (eq_of_ofSymbol? hc).1 rfl
  exact ⟨t.pos, c :: rest, rfl, hreaches, by simp [Cause.Blames, hparen]⟩

/-- A slash is the culprit if the division is by zero. -/
theorem StandsIn.zeroDivision (h : t.StandsIn .start cs) (hkind : t.kind = .slash) :
    (Fault.zeroDivision t.pos).StandsIn cs := by
  obtain ⟨c, rest, hreaches, hc⟩ := h.head?_of_kind hkind (by simp)
  have hslash : c = '/' := (eq_of_ofSymbol? hc).2.1 rfl
  exact ⟨t.pos, c :: rest, rfl, hreaches, by simp [Fault.zeroDivision, Cause.Blames, hslash]⟩

end Token

/-! ## The stages -/

section Stages

variable {text : String} {tokens : TokenSequence} {fault : Fault}

/-- A fault of scanning stands at its culprit. -/
theorem Token.standsIn_of_scan_error (h : Token.scan text = .error fault) :
    fault.StandsIn text.toList := Token.blames_of_scanFrom h

/-- With room for all calls, a fault of parsing stands at its culprit. -/
theorem Expr.standsIn_of_parseFreely_error (hscan : Token.scan text = .ok tokens) {limit : Int}
    (h : Expr.parseFreely limit tokens = .error fault) : fault.StandsIn text.toList := by
  obtain ⟨hfinish, hbody⟩ := Token.standsIn_of_scanFrom hscan
  obtain ⟨t, ht, hfault⟩ := Expr.comesFrom_of_parseFreely h
  rcases List.mem_append.mp ht with ht | ht
  · rcases hfault with ⟨expected, rfl⟩ | ⟨hkind, rfl⟩
    · exact (hbody t ht).unexpected expected
    · exact (hbody t ht).nestingTooDeep hkind limit
  · -- The end mark stands at the end of the text.
    rw [List.mem_singleton] at ht
    subst ht
    rcases hfault with ⟨expected, rfl⟩ | ⟨hkind, -⟩
    · exact ⟨tokens.finish, [], rfl, ⟨text.toList, by simp, hfinish⟩, rfl⟩
    · cases hkind

/-- Every token of a scanned text, the end mark included, stands where its lexeme starts. -/
theorem Token.exists_reaches_of_scan (hscan : Token.scan text = .ok tokens) {t : Token}
    (ht : t ∈ tokens.toList) :
    ∃ rest, Position.start.Reaches text.toList t.pos rest ∧ Token.kindAt? rest = some t.kind := by
  obtain ⟨hfinish, hbody⟩ := Token.standsIn_of_scanFrom hscan
  rcases List.mem_append.mp ht with ht | ht
  · exact (hbody t ht).2.2
  · rw [List.mem_singleton.mp ht]
    exact ⟨[], ⟨text.toList, by simp, hfinish⟩, rfl⟩

/-- A text that parses to a tree compiles, and its program fails at most at a division by zero. -/
theorem Expr.standsIn_of_run_error (hscan : Token.scan text = .ok tokens) {limit : Int}
    (hlimit : 0 ≤ limit) {e : Expr} (hparse : Expr.parseFreely limit tokens = .ok e)
    (h : e.compile.bind execute = .error fault) : fault.StandsIn text.toList := by
  obtain ⟨-, hbody⟩ := Token.standsIn_of_scanFrom hscan
  obtain ⟨n, -, hderives⟩ :=
    Expr.exists_derives_of_parseFreely (fun t ht => (hbody t ht).1) hlimit hparse
  have harith : e.Arithmetic := hderives.arithmetic fun t ht => (hbody t ht).2.1
  rw [harith.compile_eq, Except.bind, harith.execute_postorder] at h
  obtain ⟨x, hx, -⟩ | ⟨pos, hpos, hhead⟩ := harith.value_cases
  · rw [hx] at h
    cases h
  · rw [hpos] at h
    cases h
    obtain ⟨t, ht, hkind, rfl⟩ :=
      hderives.exists_slash_of_mem_zeroDivisions (List.mem_of_mem_head? hhead)
    exact (hbody t ht).zeroDivision hkind

/-- Whatever stage an evaluation stops at, the fault stands at its culprit, provided that the calls fit. -/
theorem standsIn_of_textValue {room : Nat} (hfits : TextFits (room - 1) text)
    (h : textValue room text = .error fault) : fault.StandsIn text.toList := by
  rw [textValue, Outcome.bind_eq_error_iff] at h
  rcases h with hscan | ⟨tokens, hscan, h⟩
  · exact Token.standsIn_of_scan_error hscan
  rw [Expr.parse_of_callsFit (hfits tokens hscan), Outcome.bind_eq_error_iff] at h
  rcases h with hparse | ⟨e, hparse, hrun⟩
  · exact Expr.standsIn_of_parseFreely_error hscan hparse
  · exact Expr.standsIn_of_run_error hscan (by decide) hparse hrun

/-- Where the calls do not fit, an evaluation meets the fault that says so. -/
theorem exists_overflows_of_not_textFits {room : Nat} (hover : ¬TextFits (room - 1) text) :
    ∃ fault, textValue room text = .error fault ∧ fault.Overflows text.toList := by
  obtain ⟨tokens, hscan, t, ht, hvalue⟩ := textValue_of_not_textFits hover
  obtain ⟨rest, hreaches, hkind⟩ := Token.exists_reaches_of_scan hscan ht
  exact ⟨_, hvalue, t.pos, rest, rfl, hreaches, t.kind, hkind⟩

/-- A fault of an evaluation is of one of six kinds and has a position in the text: that of its culprit if
the calls fit, and that of some lexeme or of the end if not. -/
theorem exists_reaches_of_textValue {room : Nat} (h : textValue room text = .error fault) :
    ∃ pos rest, fault.pos = some pos ∧ Position.start.Reaches text.toList pos rest ∧
      fault.cause.kind ∈ Cause.textKinds ∧
      (TextFits (room - 1) text → fault.cause.Blames rest) ∧
      (¬TextFits (room - 1) text → fault.cause = .nestingTooDeep Parser.defaultLimit ∧
        ∃ kind, Token.kindAt? rest = some kind) := by
  by_cases hfits : TextFits (room - 1) text
  · obtain ⟨pos, rest, hpos, hreaches, hblames⟩ := standsIn_of_textValue hfits h
    exact ⟨pos, rest, hpos, hreaches, hblames.kind_mem_textKinds, fun _ => hblames,
      fun hover => absurd hfits hover⟩
  · obtain ⟨fault', hfault, pos, rest, rfl, hreaches, hkind⟩ :=
      exists_overflows_of_not_textFits hfits
    obtain rfl : fault = _ := Except.error.inj (h.symm.trans hfault)
    exact ⟨pos, rest, rfl, hreaches, by simp [Cause.kind, Cause.textKinds], fun h => absurd h hfits,
      fun _ => ⟨rfl, hkind⟩⟩

end Stages

end Calculator
