import Calculator.SavePath
import Mathlib.Data.List.Infix

/-!
# The stem of a saved session's name

Every name is a stem that does not end with the extension, followed by some repetitions of it, and it is so in
one way only (`exists_isStem`, `IsStem.unique`). Folding the end of a name takes one repetition away as long as
two stand there, so by induction on their number one is left of any positive number, and none is added to none
(`foldExtension_stem`). Either way the path is the stem with the extension once behind it (`IsStem.savePath_eq`),
and all that is said of paths follows from that.
-/

set_option autoImplicit false

namespace Calculator

/-- The extension, repeated. -/
def extensions (k : Nat) : List Char := (List.replicate k extension).flatten

/-- `IsStem stem name`: the stem is what is left of the name without all the extensions at its end. -/
structure IsStem (stem name : String) : Prop where
  repeated : ∃ k, name.toList = stem.toList ++ extensions k
  bare : ¬extension <:+ stem.toList

/-- One more extension is put behind the others. -/
theorem extensions_succ (k : Nat) : extensions (k + 1) = extensions k ++ extension := by
  simp [extensions, List.replicate_succ']

/-- One more extension is put behind a name with extensions. -/
theorem append_extensions_succ (cs : List Char) (k : Nat) :
    cs ++ extensions (k + 1) = cs ++ extensions k ++ extension := by
  rw [extensions_succ, List.append_assoc]

/-! ## Every name has one stem -/

/-- Every name is a stem without the extension and some extensions. -/
theorem exists_append_extensions (cs : List Char) :
    ∃ stem k, cs = stem ++ extensions k ∧ ¬extension <:+ stem := by
  by_cases h : extension <:+ cs
  · obtain ⟨shorter, rfl⟩ := h
    have hshorter : shorter.length < (shorter ++ extension).length := by
      rw [List.length_append]
      exact Nat.lt_add_of_pos_right (by decide)
    obtain ⟨stem, k, hstem, hbare⟩ := exists_append_extensions shorter
    exact ⟨stem, k + 1, by rw [append_extensions_succ, ← hstem], hbare⟩
  · exact ⟨cs, 0, (List.append_nil cs).symm, h⟩
termination_by cs.length

/-- A name has one stem only, however many extensions are taken off. -/
theorem eq_of_append_extensions_eq {stem other : List Char} {k j : Nat} (hstem : ¬extension <:+ stem)
    (hother : ¬extension <:+ other) (h : stem ++ extensions k = other ++ extensions j) : stem = other := by
  induction k generalizing j with
  | zero =>
      cases j with
      | zero => simpa [extensions] using h
      | succ j =>
          rw [append_extensions_succ] at h
          exact absurd ⟨_, h.symm.trans (List.append_nil stem)⟩ hstem
  | succ k ih =>
      rw [append_extensions_succ] at h
      cases j with
      | zero => exact absurd ⟨_, h.trans (List.append_nil other)⟩ hother
      | succ j =>
          rw [append_extensions_succ] at h
          exact ih (List.append_cancel_right h)

/-- Every name has a stem. -/
theorem exists_isStem (name : String) : ∃ stem, IsStem stem name := by
  obtain ⟨stem, k, hname, hbare⟩ := exists_append_extensions name.toList
  exact ⟨String.ofList stem, ⟨k, by rwa [String.toList_ofList]⟩, by rwa [String.toList_ofList]⟩

/-- A name has one stem. -/
theorem IsStem.unique {stem other name : String} (h : IsStem stem name) (hother : IsStem other name) :
    other = stem := by
  obtain ⟨k, hname⟩ := h.repeated
  obtain ⟨j, hname'⟩ := hother.repeated
  exact String.toList_inj.mp (eq_of_append_extensions_eq hother.bare h.bare (hname'.symm.trans hname))

/-! ## Folding -/

/-- A reversed text starts with a reversed ending exactly if the text has that ending. -/
theorem isPrefixOf_reverse_iff {ending cs : List Char} :
    ending.reverse.isPrefixOf cs.reverse = true ↔ ending <:+ cs := by
  rw [List.isPrefixOf_iff_prefix, List.reverse_prefix]

/-- A name with one more extension ends with two exactly if it ended with one. -/
theorem twice_suffix_append_iff {cs : List Char} :
    extension ++ extension <:+ cs ++ extension ↔ extension <:+ cs := by
  constructor
  · rintro ⟨before, h⟩
    rw [← List.append_assoc] at h
    exact ⟨before, List.append_cancel_right h⟩
  · rintro ⟨before, rfl⟩
    exact ⟨before, (List.append_assoc _ _ _).symm⟩

/-- Two extensions at the end are folded as one. -/
theorem foldExtension_twice (cs : List Char) :
    foldExtension (cs ++ extension ++ extension).reverse = foldExtension (cs ++ extension).reverse := by
  have htwice : (extension ++ extension).reverse.isPrefixOf (cs ++ extension ++ extension).reverse = true := by
    rw [isPrefixOf_reverse_iff, twice_suffix_append_iff]
    exact List.suffix_append _ _
  rw [foldExtension, if_pos htwice, List.reverse_append, List.drop_left' List.length_reverse]

/-- A name that does not end with two extensions is left as it is. -/
theorem foldExtension_of_not_twice {cs : List Char} (h : ¬extension ++ extension <:+ cs) :
    foldExtension cs.reverse = cs.reverse := by
  rw [foldExtension, if_neg (mt isPrefixOf_reverse_iff.mp h)]

/-- Of the extensions behind a stem, folding leaves one, if there is any. -/
theorem foldExtension_stem {stem : List Char} (h : ¬extension <:+ stem) (k : Nat) :
    foldExtension (stem ++ extensions (k + 1)).reverse = (stem ++ extension).reverse := by
  induction k with
  | zero => exact foldExtension_of_not_twice (mt twice_suffix_append_iff.mp h)
  | succ k ih => rw [append_extensions_succ, append_extensions_succ, foldExtension_twice,
      ← append_extensions_succ, ih]

/-! ## Paths -/

section Path

variable {stem name : String} (h : IsStem stem name)
include h

/-- The path is the stem with the extension behind it. -/
theorem IsStem.savePath_eq : savePath name = stem ++ ".arith" := by
  obtain ⟨k, hname⟩ := h.repeated
  have hpath : savePath name = String.ofList (stem.toList ++ extension) := by
    unfold savePath
    rw [hname]
    cases k with
    | zero =>
        have hnone : foldExtension (stem.toList ++ extensions 0).reverse = stem.toList.reverse := by
          rw [extensions, List.replicate_zero, List.flatten_nil, List.append_nil]
          apply foldExtension_of_not_twice
          exact fun htwice => h.bare ((List.suffix_append _ _).trans htwice)
        simp only [hnone, if_neg (mt isPrefixOf_reverse_iff.mp h.bare), List.reverse_reverse]
    | succ k =>
        have honce := isPrefixOf_reverse_iff.mpr (List.suffix_append stem.toList extension)
        simp only [foldExtension_stem h.bare, if_pos honce, List.reverse_reverse]
  rw [hpath, String.ofList_append, String.ofList_toList]
  rfl

/-- A name is saved under its stem with one extension. -/
theorem IsStem.toList_savePath : (savePath name).toList = stem.toList ++ extension := by
  rw [h.savePath_eq, String.toList_append]
  rfl

/-- The path has the same stem as the name. -/
theorem IsStem.isStem_savePath : IsStem stem (savePath name) :=
  ⟨⟨1, h.toList_savePath⟩, h.bare⟩

end Path

/-- A name without the extension gets it once. -/
theorem savePath_eq_append {name : String}
    (h : ¬extension.reverse.isPrefixOf name.toList.reverse = true) :
    savePath name = String.ofList (name.toList ++ extension) := by
  have hstem : IsStem name name := ⟨⟨0, (List.append_nil _).symm⟩, mt isPrefixOf_reverse_iff.mpr h⟩
  rw [← hstem.toList_savePath, String.ofList_toList]

/-- The path of a name is what is left of the name without the extensions at its end, with the extension once
behind it. So the path of a path is that path, paths end with the extension and never with two of them, and
names have the same path exactly if they have the same stem. -/
theorem savePath_normalises (name : String) :
    ∃ stem, IsStem stem name ∧ (∀ other, IsStem other name → other = stem) ∧
      savePath name = stem ++ ".arith" ∧ savePath (savePath name) = savePath name ∧
      ".arith".toList <:+ (savePath name).toList ∧ ¬".arith.arith".toList <:+ (savePath name).toList ∧
      ∀ other, savePath other = savePath name ↔ IsStem stem other := by
  obtain ⟨stem, h⟩ := exists_isStem name
  refine ⟨stem, h, fun _ => h.unique, h.savePath_eq, ?_, ?_, ?_, ?_⟩
  · rw [h.isStem_savePath.savePath_eq, h.savePath_eq]
  · rw [h.toList_savePath]
    exact List.suffix_append _ _
  · rw [h.toList_savePath]
    exact mt twice_suffix_append_iff.mp h.bare
  · intro other
    obtain ⟨stem', h'⟩ := exists_isStem other
    constructor
    · intro hpath
      have hstem := h'.isStem_savePath
      rw [hpath] at hstem
      rwa [← h.isStem_savePath.unique hstem]
    · intro hother
      rw [hother.savePath_eq, h.savePath_eq]

end Calculator
