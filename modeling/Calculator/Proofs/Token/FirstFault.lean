import Calculator.Proofs.Token.Lexeme
import Calculator.Proofs.Token.NumeralValue
import Calculator.Proofs.Token.Segments

/-!
# The first lexical fault

Where scanning fails, the text before the culprit can be scanned, and the culprit is a character that starts no
token and separates none, or the longest numeral at its place, if nothing can be read from it. Where scanning
succeeds, something can be read from every numeral, and the number read is finite.

That the text before the culprit can be scanned is not a matter of course: a lexeme is taken as long as it goes,
so what it is may depend on what follows. But a text that is cut behind a lexeme, at once or later, still starts
with that lexeme (`Numeral.take_cut`, and `takeWhile_cut` for comments). The induction along the scan cuts the
text at the culprit.
-/

set_option autoImplicit false

namespace Calculator

/-! ## Lexemes of a text that is cut behind them -/

section Lists

variable {α : Type} {p : α → Bool} {cs rest more : List α}

/-- What is left after dropping characters does not start with one that passes. -/
theorem forall_head?_dropWhile (cs : List α) : ∀ c ∈ (cs.dropWhile p).head?, ¬p c = true := by
  intro c hc
  have hstop := List.head?_dropWhile_not p cs
  rw [Option.mem_def.mp hc] at hstop
  exact Bool.eq_false_iff.mp hstop

/-- A list that is cut still starts as before, or nothing is left of it. -/
theorem forall_head?_of_append {P : α → Prop} (more : List α) (h : ∀ c ∈ (cs ++ more).head?, ¬P c) :
    ∀ c ∈ cs.head?, ¬P c := by
  intro c hc
  apply h
  rw [Option.mem_def] at hc ⊢
  rw [List.head?_append, hc, Option.some_or]

/-- What a test accepts as a whole is taken as a whole in front of a list that starts otherwise. -/
theorem span_append {ds : List α} (hds : ∀ c ∈ ds, p c = true) (hrest : ∀ c ∈ rest.head?, ¬p c = true) :
    (ds ++ rest).takeWhile p = ds ∧ (ds ++ rest).dropWhile p = rest := by
  rw [List.takeWhile_append_of_pos hds, List.dropWhile_append_of_pos hds]
  cases rest with
  | nil => simp
  | cons c rest => simp [hrest c rfl]

/-- What is taken from a list is also taken where the list is cut behind it. -/
theorem span_cut (h : cs.dropWhile p = rest ++ more) :
    (cs.takeWhile p ++ rest).takeWhile p = cs.takeWhile p ∧
      (cs.takeWhile p ++ rest).dropWhile p = rest := by
  apply span_append
  · intro c hc
    exact List.mem_takeWhile_imp hc
  · apply forall_head?_of_append more
    rw [← h]
    exact forall_head?_dropWhile cs

/-- A text that is cut off behind a run of characters has the same run. -/
theorem takeWhile_cut (h : cs.dropWhile p = rest ++ more) :
    (cs.takeWhile p ++ rest).takeWhile p = cs.takeWhile p := (span_cut h).1

/-- A text that is cut off behind a run of characters leaves what stands before the cut. -/
theorem dropWhile_cut (h : cs.dropWhile p = rest ++ more) :
    (cs.takeWhile p ++ rest).dropWhile p = rest := (span_cut h).2

/-- A text that starts with a character of some kind has a first character. -/
theorem exists_cons_of_head? {P : α → Prop} (h : ¬∀ c ∈ cs.head?, ¬P c) : ∃ c tail, cs = c :: tail ∧ P c := by
  cases cs with
  | nil => simp at h
  | cons c tail => exact ⟨c, tail, rfl, by simpa using h⟩

end Lists

section Numerals

variable {cs rest more : List Char}

namespace Exponent

variable {mark sign : Char}

/-- Without its letter in front, no exponent is taken off. -/
theorem take_of_head? (h : ∀ c ∈ cs.head?, ¬(c = 'e' ∨ c = 'E')) : take cs = (none, cs) := by
  cases cs with
  | nil => rfl
  | cons c cs => simp only [take, if_neg (h c rfl)]

/-- An exponent with a sign takes the digits behind it. -/
theorem take_signed (hmark : mark = 'e' ∨ mark = 'E') (hsign : sign = '+' ∨ sign = '-') (cs : List Char) :
    take (mark :: sign :: cs) =
      (some ⟨mark, some sign, cs.takeWhile Text.isDigit⟩, cs.dropWhile Text.isDigit) := by
  simp only [take, if_pos hmark, if_pos hsign]

/-- An exponent without a sign takes the digits behind its letter. -/
theorem take_unsigned (hmark : mark = 'e' ∨ mark = 'E') (hsign : ∀ c ∈ cs.head?, ¬(c = '+' ∨ c = '-')) :
    take (mark :: cs) = (some ⟨mark, none, cs.takeWhile Text.isDigit⟩, cs.dropWhile Text.isDigit) := by
  cases cs with
  | nil => simp [take, hmark]
  | cons c cs => simp only [take, if_pos hmark, if_neg (hsign c rfl)]

/-- Cutting the text off behind an exponent does not change the exponent. -/
theorem take_cut (h : (take cs).2 = rest ++ more) :
    take (((take cs).1.map text).getD [] ++ rest) = ((take cs).1, rest) := by
  by_cases hnone : ∀ c ∈ cs.head?, ¬(c = 'e' ∨ c = 'E')
  · rw [take_of_head? hnone] at h ⊢
    have hcs : cs = rest ++ more := h
    rw [hcs] at hnone
    exact take_of_head? (forall_head?_of_append more hnone)
  · obtain ⟨mark, tail, rfl, hmark⟩ := exists_cons_of_head? hnone
    by_cases hbare : ∀ c ∈ tail.head?, ¬(c = '+' ∨ c = '-')
    · rw [take_unsigned hmark hbare] at h ⊢
      have hbare' : ∀ c ∈ (tail.takeWhile Text.isDigit ++ rest).head?, ¬(c = '+' ∨ c = '-') := by
        apply forall_head?_of_append more
        rwa [List.append_assoc, ← h, List.takeWhile_append_dropWhile]
      have hcut := take_unsigned hmark hbare'
      rw [takeWhile_cut h, dropWhile_cut h] at hcut
      exact hcut
    · obtain ⟨sign, digits, rfl, hsign⟩ := exists_cons_of_head? hbare
      have hcut := take_signed hmark hsign (digits.takeWhile Text.isDigit ++ rest)
      rw [take_signed hmark hsign] at h ⊢
      rw [takeWhile_cut h, dropWhile_cut h] at hcut
      exact hcut

/-- An exponent is taken from its own text. -/
theorem take_text {e : Exponent} (h : e.WellFormed) : take e.text = (some e, []) := by
  obtain ⟨mark, sign, digits⟩ := e
  have htake : digits.takeWhile Text.isDigit = digits := List.takeWhile_eq_self_iff.mpr h.digits
  have hdrop : digits.dropWhile Text.isDigit = [] := List.dropWhile_eq_nil_iff.mpr h.digits
  cases sign with
  | some sign =>
      have hread := take_signed h.mark (h.sign sign rfl) digits
      rwa [htake, hdrop] at hread
  | none =>
      have hbare : ∀ c ∈ digits.head?, ¬(c = '+' ∨ c = '-') := by
        intro c hc
        have hdigit := h.digits c (List.mem_of_head? hc)
        rintro (rfl | rfl) <;> revert hdigit <;> decide
      have hread := take_unsigned h.mark hbare
      rwa [htake, hdrop] at hread

end Exponent

namespace Numeral

/-- Cutting the text off behind a fraction does not change the fraction. -/
theorem takeFraction_cut (h : (takeFraction cs).2 = rest ++ more) :
    takeFraction (((takeFraction cs).1.map ('.' :: ·)).getD [] ++ rest) = ((takeFraction cs).1, rest) := by
  by_cases hpoint : ∀ c ∈ cs.head?, ¬c = '.'
  · have hnone : ∀ {ds : List Char}, (∀ c ∈ ds.head?, ¬c = '.') → takeFraction ds = (none, ds) :=
      fun hds => takeFraction_of_ne fun hhead => hds '.' hhead rfl
    rw [hnone hpoint] at h ⊢
    have hcs : cs = rest ++ more := h
    rw [hcs] at hpoint
    exact hnone (forall_head?_of_append more hpoint)
  · obtain ⟨_, digits, rfl, rfl⟩ := exists_cons_of_head? hpoint
    simp only [takeFraction, Option.map_some, Option.getD_some, List.cons_append] at h ⊢
    rw [takeWhile_cut h, dropWhile_cut h]

/-- A text that is cut behind a numeral starts with the same numeral. -/
theorem take_cut (h : (take cs).2 = rest ++ more) :
    take ((take cs).1.text ++ rest) = ((take cs).1, rest) := by
  -- The cut lies behind the exponent, so behind the fraction, so behind the first digits.
  have hexponent : (Exponent.take (takeFraction (cs.dropWhile Text.isDigit)).2).2 = rest ++ more := h
  have hfraction := Exponent.text_append_rest (takeFraction (cs.dropWhile Text.isDigit)).2
  rw [hexponent, ← List.append_assoc] at hfraction
  have hwhole := takeFraction_append (cs.dropWhile Text.isDigit)
  rw [← hfraction, ← List.append_assoc] at hwhole
  simp only [take, text, fractionText, List.append_assoc]
  rw [takeWhile_cut hwhole.symm, dropWhile_cut hwhole.symm, takeFraction_cut hfraction.symm,
    Exponent.take_cut hexponent]

/-- A numeral is taken from its own text, so it is determined by it. -/
theorem take_text {n : Numeral} (h : n.WellFormed) : take n.text = (n, []) := by
  obtain ⟨whole, fraction, exponent⟩ := n
  have hexponent : Exponent.take ((exponent.map Exponent.text).getD []) = (exponent, []) := by
    cases exponent with
    | none => rfl
    | some e => exact Exponent.take_text (h.exponent e rfl)
  -- The exponent starts with its mark, which neither goes on with digits nor opens a fraction.
  have hmark : ∀ c ∈ ((exponent.map Exponent.text).getD []).head?, c = 'e' ∨ c = 'E' := by
    cases exponent with
    | none => simp
    | some e => simpa [Exponent.text] using (h.exponent e rfl).mark
  have hstop : ∀ c ∈ ((exponent.map Exponent.text).getD []).head?, ¬Text.isDigit c = true := by
    intro c hc
    rw [Exponent.not_isDigit_of_mark (hmark c hc)]
    exact Bool.false_ne_true
  have hfraction : takeFraction ((fraction.map ('.' :: ·)).getD [] ++
      (exponent.map Exponent.text).getD []) = (fraction, (exponent.map Exponent.text).getD []) := by
    cases fraction with
    | none =>
        apply takeFraction_of_ne
        intro hpoint
        rcases hmark '.' hpoint with heq | heq <;> cases heq
    | some digits =>
        obtain ⟨htake, hdrop⟩ := span_append (h.fraction digits rfl) hstop
        simp only [Option.map_some, Option.getD_some, List.cons_append, takeFraction, htake, hdrop]
  have hpoint : ∀ c ∈ ((fraction.map ('.' :: ·)).getD [] ++
      (exponent.map Exponent.text).getD []).head?, ¬Text.isDigit c = true := by
    cases fraction with
    | none => exact hstop
    | some digits =>
        intro c hc
        cases hc
        decide
  obtain ⟨htake, hdrop⟩ := span_append h.whole hpoint
  simp only [take, text, fractionText, List.append_assoc, htake, hdrop, hfraction, hexponent]

/-- A numeral that is taken off starts with the first digit. -/
theorem exists_text_eq_cons {c : Char} (h : Text.isDigit c = true) (cs : List Char) :
    ∃ tail, (take (c :: cs)).1.text = c :: tail := by
  simp [take, text, h]

end Numeral

end Numerals

/-! ## The culprit -/

namespace Numeral

/-- `n.IsLongestAt cs`: of the well-formed numerals that the text starts with, none is longer than `n`. -/
structure IsLongestAt (n : Numeral) (cs : List Char) : Prop where
  wellFormed : n.WellFormed
  starts : n.text <+: cs
  longest : ∀ m : Numeral, m.WellFormed → m.text <+: cs → m.text.length ≤ n.text.length

/-- The numeral that is taken off is the longest one there. -/
theorem isLongestAt_take {c : Char} (h : Text.isDigit c = true) (cs : List Char) :
    (take (c :: cs)).1.IsLongestAt (c :: cs) where
  wellFormed := wellFormed_take h cs
  starts := ⟨(take (c :: cs)).2, text_append_rest (c :: cs)⟩
  longest _ hm hstart := length_text_le_length_take hm hstart

/-- There is at most one longest numeral at the start of a text. -/
theorem IsLongestAt.unique {n m : Numeral} {cs : List Char} (hn : n.IsLongestAt cs)
    (hm : m.IsLongestAt cs) : m = n := by
  have hlength : m.text.length = n.text.length :=
    Nat.le_antisymm (hn.longest m hm.wellFormed hm.starts) (hm.longest n hn.wellFormed hn.starts)
  have htext : m.text = n.text := by
    rw [List.prefix_iff_eq_take.mp hm.starts, List.prefix_iff_eq_take.mp hn.starts, hlength]
  have htake := take_text hm.wellFormed
  rw [htext, take_text hn.wellFormed] at htake
  exact (congrArg Prod.fst htake).symm

end Numeral

namespace Token

/-- `FaultAt cause rest`: no token can be read at the start of `rest`, for this cause. -/
inductive FaultAt : Cause → List Char → Prop
  | unexpectedChar {c : Char} {rest : List Char} (hdigit : Text.isDigit c = false)
      (hsymbol : c ∉ ['+', '-', '*', '/', '(', ')']) (hgap : c ∉ [' ', '\t', '\r', '\n'])
      (hcomment : c ≠ ';') : FaultAt (.unexpectedChar (String.singleton c)) (c :: rest)
  | invalidNumber {n : Numeral} {rest : List Char} (hlongest : n.IsLongestAt rest)
      (hvalue : n.Unreadable) : FaultAt (.invalidNumber (String.ofList n.text)) rest

/-- A character that is no gap is no blank and no newline. -/
theorem notMem_of_isGap {c : Char} (h : ¬isGap c = true) : c ∉ [' ', '\t', '\r', '\n'] := by
  simpa [isGap, and_assoc] using h

/-- A character without a kind is no symbol. -/
theorem notMem_of_ofSymbol? {c : Char} (h : ofSymbol? c = none) : c ∉ ['+', '-', '*', '/', '(', ')'] := by
  intro hmem
  simp only [List.mem_cons, List.not_mem_nil, or_false] at hmem
  rcases hmem with rfl | rfl | rfl | rfl | rfl | rfl <;> cases h

/-- `MeetsFault p cs fault`: where the text starts at the position, the fault stands behind a part of it that can
be scanned. -/
def MeetsFault (p : Position) (cs : List Char) (fault : Fault) : Prop :=
  ∃ passed rest, cs = passed ++ rest ∧ fault.pos = some (p.along passed) ∧
    (∃ s, scanFrom p passed = .ok s) ∧ FaultAt fault.cause rest

section Steps

variable {p : Position} {fault : Fault}

/-- The scan meets a fault that stands at the start. -/
theorem FaultAt.meetsFault {cause : Cause} {cs : List Char} (h : FaultAt cause cs) :
    MeetsFault p cs ⟨cause, some p⟩ := by
  refine ⟨[], cs, rfl, rfl, ⟨⟨[], p⟩, ?_⟩, h⟩
  rw [scanFrom]

/-- A fault that is met behind some characters is met from the start if these are read in the same way however
much follows. -/
theorem MeetsFault.append {read cs : List Char}
    (hread : ∀ passed rest, cs = passed ++ rest → (∃ s, scanFrom (p.along read) passed = .ok s) →
      ∃ s, scanFrom p (read ++ passed) = .ok s)
    (h : MeetsFault (p.along read) cs fault) : MeetsFault p (read ++ cs) fault := by
  obtain ⟨passed, rest, hcs, hpos, hscan, hfault⟩ := h
  refine ⟨read ++ passed, rest, ?_, ?_, hread passed rest hcs hscan, hfault⟩
  · rw [hcs, List.append_assoc]
  · rw [hpos, Position.along_append]

/-- A fault that is met behind a gap is met before it. -/
theorem MeetsFault.gap {c : Char} {cs : List Char} (hgap : isGap c = true)
    (h : MeetsFault (p.after c) cs fault) : MeetsFault p (c :: cs) fault := by
  have hbehind : MeetsFault (p.along [c]) cs fault := h
  apply hbehind.append
  rintro passed rest - ⟨s, hs⟩
  exact ⟨s, (scanFrom_gap p passed hgap).trans hs⟩

/-- A fault that is met behind a symbol is met before it. -/
theorem MeetsFault.symbol {c : Char} {cs : List Char} (hgap : ¬isGap c = true)
    (hdigit : ¬Text.isDigit c = true) (hcomment : ¬c = ';') {kind : TokenKind}
    (hkind : ofSymbol? c = some kind) (h : MeetsFault (p.after c) cs fault) :
    MeetsFault p (c :: cs) fault := by
  have hbehind : MeetsFault (p.along [c]) cs fault := h
  apply hbehind.append
  rintro passed rest - ⟨s, hs⟩
  refine ⟨s.cons ⟨kind, p, none⟩, (scanFrom_symbol p passed hgap hdigit hcomment hkind).trans ?_⟩
  exact Outcome.map_eq_ok_iff.mpr ⟨s, hs, rfl⟩

/-- A fault that is met behind a comment is met before it. -/
theorem MeetsFault.comment {cs : List Char}
    (h : MeetsFault (p.along (';' :: cs.takeWhile inComment)) (cs.dropWhile inComment) fault) :
    MeetsFault p (';' :: cs) fault := by
  have hwhole := h.append fun passed rest hsplit hscan => by
    rwa [List.cons_append, scanFrom_comment, takeWhile_cut hsplit, dropWhile_cut hsplit]
  rwa [List.cons_append, List.takeWhile_append_dropWhile] at hwhole

/-- A fault that is met behind a number is met before it. -/
theorem MeetsFault.number {c : Char} {cs : List Char} (hgap : ¬isGap c = true)
    (hdigit : Text.isDigit c = true) {value : Float}
    (hvalue : (Numeral.take (c :: cs)).1.value? = some value)
    (h : MeetsFault (p.along (Numeral.take (c :: cs)).1.text) (Numeral.take (c :: cs)).2 fault) :
    MeetsFault p (c :: cs) fault := by
  have hwhole := h.append fun passed rest hsplit hscan => by
    obtain ⟨s, hs⟩ := hscan
    have hcut := Numeral.take_cut hsplit
    obtain ⟨tail, htail⟩ := Numeral.exists_text_eq_cons hdigit cs
    rw [htail, List.cons_append] at hcut ⊢
    refine ⟨s.cons ⟨.number, p, some value⟩, ?_⟩
    rw [scanFrom_number p _ hgap hdigit (by rw [hcut]; exact hvalue), hcut]
    exact Outcome.map_eq_ok_iff.mpr ⟨s, hs, rfl⟩
  rwa [Numeral.text_append_rest] at hwhole

end Steps

/-- The scan of a text that cannot be scanned meets the fault it reports. -/
theorem meetsFault_of_scanFrom {p : Position} {cs : List Char} {fault : Fault}
    (h : scanFrom p cs = .error fault) : MeetsFault p cs fault := by
  fun_induction scanFrom p cs with
  | case1 => cases h
  | case2 p c cs hgap ih => exact (ih h).gap hgap
  | case3 p c cs hgap hdigit numeral hvalue =>
      cases h
      apply FaultAt.meetsFault
      exact .invalidNumber (Numeral.isLongestAt_take hdigit cs) ((Numeral.value?_eq_none_iff _).mp hvalue)
  | case4 p c cs hgap hdigit numeral value hvalue ih =>
      exact (ih (Outcome.map_eq_error_iff.mp h)).number hgap hdigit hvalue
  | case5 p cs hgap hdigit ih => exact (ih h).comment
  | case6 p c cs hgap hdigit hcomment kind hkind ih =>
      exact (ih (Outcome.map_eq_error_iff.mp h)).symbol hgap hdigit hcomment hkind
  | case7 p c cs hgap hdigit hcomment hkind =>
      cases h
      apply FaultAt.meetsFault
      exact .unexpectedChar (Bool.eq_false_iff.mpr hdigit) (notMem_of_ofSymbol? hkind)
        (notMem_of_isGap hgap) hcomment

/-- Where scanning fails, the text before the fault can be scanned, and the fault is that of a character that can
stand nowhere or of a longest numeral from which nothing can be read. Where it succeeds, at the place of every
number there is one longest numeral, something can be read from it, and the number is finite. -/
theorem scan_stops_at_first_fault (source : String) :
    (∀ fault, scan source = .error fault → ∃ pos, fault.pos = some pos ∧
      (∃ s, scan (String.ofList (source.toList.take (pos.offsetIn source.toList))) = .ok s) ∧
        FaultAt fault.cause (source.toList.drop (pos.offsetIn source.toList))) ∧
    ∀ s, scan source = .ok s → ∀ t ∈ s.toList, t.kind = .number →
      ∃ (n : Numeral) (value : Float) (magnitude : Fraction),
        (∀ m : Numeral, m.IsLongestAt (source.toList.drop (t.pos.offsetIn source.toList)) ↔ m = n) ∧
          ¬n.Unreadable ∧ t.value = some value ∧ Binary64.datum value = .finite false magnitude := by
  constructor
  · intro fault hfault
    obtain ⟨passed, rest, hsplit, hpos, ⟨s, hs⟩, hculprit⟩ := meetsFault_of_scanFrom hfault
    obtain ⟨htake, hdrop⟩ := Position.take_drop_offsetIn hsplit
    refine ⟨_, hpos, ⟨s, ?_⟩, ?_⟩
    · rw [htake, scan, String.toList_ofList, hs]
    · rwa [hdrop]
  · intro s hs t ht hkind
    have hbody : t ∈ s.body := by
      rcases List.mem_append.mp ht with hbody | hend
      · exact hbody
      · rw [List.mem_singleton.mp hend] at hkind
        cases hkind
    obtain ⟨segments, last, hsource, hsegmented⟩ := hasSegments_of_scanFrom hs
    obtain ⟨passed, lexeme, rest, htext, hpos, hspells⟩ := hsegmented.exists_spells t hbody
    rw [hpos, (Position.take_drop_offsetIn (hsource.trans htext)).2]
    cases hspells with
    | symbol hsymbol => exact absurd hkind (eq_of_ofSymbol? hsymbol).2.2
    | @number n value magnitude _ hn hlongest hvalue hfinite =>
        have hhere : n.IsLongestAt (n.text ++ rest) := ⟨hn, List.prefix_append .., hlongest⟩
        refine ⟨n, value, magnitude, fun m => ⟨hhere.unique, ?_⟩, ?_, rfl, hfinite⟩
        · rintro rfl
          exact hhere
        · rw [← Numeral.value?_eq_none_iff, hvalue]
          exact Option.some_ne_none value

/-- A sign behind the mark belongs to the numeral, and the character in the comment is no fault; a zero is read. -/
theorem scan_stops_at_first_fault_open_exponent :
    scan "(;$\n1e+)" = .error ⟨.invalidNumber "1e+", some ⟨2, 1⟩⟩ ∧ (∃ s, scan "(;$\n" = .ok s) ∧
      FaultAt (.invalidNumber "1e+") ['1', 'e', '+', ')'] ∧
      ∃ s t, scan "-0" = .ok s ∧ t ∈ s.toList ∧ t.pos = ⟨1, 2⟩ ∧
        ∃ (n : Numeral) (value : Float) (magnitude : Fraction),
          (∀ m : Numeral, m.IsLongestAt ['0'] ↔ m = n) ∧ ¬n.Unreadable ∧
            t.value = some value ∧ Binary64.datum value = .finite false magnitude := by
  have hvalue : (Numeral.take ['1', 'e', '+', ')']).1.value? = none := by decide +kernel
  have hfault : scan "(;$\n1e+)" = .error ⟨.invalidNumber "1e+", some ⟨2, 1⟩⟩ := by
    show scanFrom .start ['(', ';', '$', '\n', '1', 'e', '+', ')'] = _
    rw [scanFrom_symbol _ _ (by decide) (by decide) (by decide) (rfl : ofSymbol? '(' = some .lparen),
      scanFrom_comment]
    show (scanFrom ⟨1, 4⟩ ['\n', '1', 'e', '+', ')']).map _ = _
    rw [scanFrom_gap _ _ (by decide), scanFrom_invalidNumber _ _ (by decide) (by decide) hvalue]
    rfl
  have hzero : (Numeral.take ['0']).1.value? = some (.ofBits 0) := by decide +kernel
  have hscan : scan "-0" =
      .ok ⟨[⟨.minus, ⟨1, 1⟩, none⟩, ⟨.number, ⟨1, 2⟩, some (.ofBits 0)⟩], ⟨1, 3⟩⟩ := by
    show scanFrom .start ['-', '0'] = _
    rw [scanFrom_symbol _ _ (by decide) (by decide) (by decide) (rfl : ofSymbol? '-' = some .minus),
      scanFrom_number _ _ (by decide) (by decide) hzero]
    show ((scanFrom _ []).map _).map _ = _
    rw [scanFrom]
    rfl
  obtain ⟨pos, hpos, hprefix, hculprit⟩ := (scan_stops_at_first_fault "(;$\n1e+)").1 _ hfault
  cases hpos
  refine ⟨hfault, hprefix, hculprit, _, _, hscan, List.mem_cons_of_mem _ List.mem_cons_self, rfl, ?_⟩
  exact (scan_stops_at_first_fault "-0").2 _ hscan _ (List.mem_cons_of_mem _ List.mem_cons_self) rfl

end Token

end Calculator
