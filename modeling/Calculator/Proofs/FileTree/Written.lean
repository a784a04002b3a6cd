import Calculator.FileTree
import Calculator.Proofs.Outcome

/-!
# What has been written can be read

Writing a file puts a node at the place that its path leads to and takes nothing else away. The way of
the path leads through directories, and its end is none, so the same way leads to the same place
afterwards, and what is read there is what has been written (`read_write`).
-/

set_option autoImplicit false

namespace Calculator

namespace FileTree

variable {tree : FileTree} {place target : FilePlace} {node : FileNode}

/-! ## Nodes of a tree with one more -/

/-- Replacing the nodes at one place keeps at which places nodes are found. -/
theorem find?_map_insert (nodes : List (FilePlace × FileNode)) (place : FilePlace) :
    (nodes.map fun entry => if entry.1 == target then (target, node) else entry).find?
        (·.1 == place) =
      (nodes.find? (·.1 == place)).map fun entry =>
        if entry.1 == target then (target, node) else entry := by
  -- Replacing a node keeps its place.
  have hplace : ∀ entry : FilePlace × FileNode,
      (if entry.1 == target then (target, node) else entry).1 = entry.1 := by
    intro entry
    by_cases h : entry.1 = target
    · simp [h]
    · simp [h]
  rw [List.find?_map]
  simp only [Function.comp_def, hplace]

/-- What has been put at a place is found there. -/
theorem get?_insert_self (tree : FileTree) (target : FilePlace) (node : FileNode) :
    (tree.insert target node).get? target = some node := by
  have hfind : (tree.insert target node).nodes.find? (·.1 == target) = some (target, node) := by
    unfold insert
    split
    · next hany =>
      obtain ⟨entry, hentry⟩ := Option.isSome_iff_exists.mp (List.find?_isSome.mpr
        (List.any_eq_true.mp hany))
      have htarget : entry.1 = target := by simpa using List.find?_some hentry
      rw [find?_map_insert, hentry, Option.map_some, if_pos (beq_iff_eq.mpr htarget)]
    · next hany =>
      have hnone : tree.nodes.find? (·.1 == target) = none := by
        rw [List.find?_eq_none]
        intro entry hentry htarget
        exact hany (List.any_eq_true.mpr ⟨entry, hentry, htarget⟩)
      simp [List.find?_append, hnone]
  rw [get?, hfind]

/-- Putting a node at one place does not change what is found at another. -/
theorem find?_insert_of_ne (hne : place ≠ target) :
    (tree.insert target node).nodes.find? (·.1 == place) = tree.nodes.find? (·.1 == place) := by
  unfold insert
  split
  · rw [find?_map_insert]
    cases hfind : tree.nodes.find? (·.1 == place) with
    | none => rfl
    | some entry =>
        have hplace : entry.1 = place := by simpa using List.find?_some hfind
        rw [Option.map_some, if_neg (by simpa [hplace] using hne)]
  · simp [List.find?_append, Ne.symm hne]

/-- A place that is in the tree stays in it. -/
theorem any_insert (p : FilePlace → Bool) (h : tree.nodes.any (fun entry => p entry.1) = true) :
    (tree.insert target node).nodes.any (fun entry => p entry.1) = true := by
  obtain ⟨entry, hentry, hp⟩ := List.any_eq_true.mp h
  unfold insert
  split
  · rw [List.any_map, List.any_eq_true]
    refine ⟨entry, hentry, ?_⟩
    by_cases htarget : entry.1 = target
    · simpa [htarget] using hp
    · simpa [htarget] using hp
  · rw [List.any_append, h, Bool.true_or]

/-- What stands at another place is still there. -/
theorem get?_insert_of_ne (hne : place ≠ target) {other : FileNode}
    (h : tree.get? place = some other) : (tree.insert target node).get? place = some other := by
  unfold get? at h ⊢
  rw [find?_insert_of_ne hne]
  split
  · next entry hentry => simpa [hentry] using h
  · next hnone =>
    simp only [hnone] at h
    split at h
    · next hdirectory =>
      rw [if_pos]
      · exact h
      · rw [Bool.or_eq_true] at hdirectory ⊢
        exact hdirectory.imp_right (any_insert _)
    · cases h

/-! ## The way of a path -/

/-- A name that is looked up. -/
structure IsName (name : String) : Prop where
  moves : ¬(name = "" ∨ name = ".")
  descends : name ≠ ".."
  short : ¬longestName < name.utf8ByteSize

/-- One name of a path that names a file: it stays or goes up, it leads to a directory, or it is the
last one and leads to the file, which need not exist. -/
theorem walk_cons_cases {name : String} {names : List String}
    (h : tree.walk place (name :: names) = .ok target) :
    ((name = "" ∨ name = ".") ∧ tree.walk place names = .ok target) ∨
      (name = ".." ∧ tree.walk place.parent names = .ok target) ∨
      (IsName name ∧ tree.get? (place ++ [name]) = some .directory ∧
        tree.walk (place ++ [name]) names = .ok target) ∨
      (IsName name ∧ tree.get? (place ++ [name]) ≠ some .directory ∧ names = [] ∧
        target = place ++ [name]) := by
  unfold walk at h
  split at h
  · next hstay => exact .inl ⟨hstay, h⟩
  split at h
  · next hup => exact .inr (.inl ⟨hup, h⟩)
  split at h
  · cases h
  next hmoves hdescends hshort =>
  have hname : IsName name := ⟨hmoves, hdescends, hshort⟩
  simp only at h
  split at h
  · next hdirectory => exact .inr (.inr (.inl ⟨hname, hdirectory, h⟩))
  · next hfile =>
    cases h
    exact .inr (.inr (.inr ⟨hname, by simp [hfile], rfl, rfl⟩))
  · cases h
  · next hnone =>
    cases h
    exact .inr (.inr (.inr ⟨hname, by simp [hnone], rfl, rfl⟩))
  · cases h

/-- A path that names a file does not lead to a directory. -/
theorem get?_ne_directory_of_walk {names : List String} (h : tree.walk place names = .ok target) :
    tree.get? target ≠ some .directory := by
  induction names generalizing place with
  | nil => cases h
  | cons name names ih =>
      rcases walk_cons_cases h with ⟨-, h⟩ | ⟨-, h⟩ | ⟨-, -, h⟩ | ⟨-, hend, -, rfl⟩
      · exact ih h
      · exact ih h
      · exact ih h
      · exact hend

/-- Once the file is there, the same names lead to it. -/
theorem walk_insert {names : List String} (h : tree.walk place names = .ok target)
    (bytes : ByteArray) : (tree.insert target (.file bytes)).walk place names = .ok target := by
  have hend := get?_ne_directory_of_walk h
  induction names generalizing place with
  | nil => cases h
  | cons name names ih =>
      rcases walk_cons_cases h with
        ⟨hstay, h⟩ | ⟨rfl, h⟩ | ⟨hname, hdirectory, h⟩ | ⟨hname, -, rfl, rfl⟩
      · rw [walk, if_pos hstay]
        exact ih h
      · rw [walk, if_neg (by decide), if_pos rfl]
        exact ih h
      · have hne : place ++ [name] ≠ target := by
          rintro rfl
          exact hend hdirectory
        rw [walk, if_neg hname.moves, if_neg hname.descends, if_neg hname.short]
        simp only [get?_insert_of_ne hne hdirectory]
        exact ih h
      · rw [walk, if_neg hname.moves, if_neg hname.descends, if_neg hname.short]
        simp only [get?_insert_self]

/-- A path leads to the same place after a file has been put there. -/
theorem locate_insert {path : String} (h : tree.locate path = .ok target) (bytes : ByteArray) :
    (tree.insert target (.file bytes)).locate path = .ok target := by
  unfold locate at h ⊢
  split at h
  · cases h
  split at h
  · cases h
  next hempty hlong =>
  rw [if_neg hempty, if_neg hlong]
  exact walk_insert h bytes

/-- The bytes of a file that has been written are those of the text. -/
theorem read_write {after : FileTree} {path text : String} (h : tree.write path text = .ok after) :
    after.read path = .ok text.toUTF8 := by
  obtain ⟨target, htarget, rfl⟩ := Outcome.map_eq_ok_iff.mp h
  unfold read
  rw [locate_insert htarget, Except.bind, get?_insert_self]

end FileTree

end Calculator
