/-!
# Save paths

Sessions are saved under names that end with one fixed extension. A name that repeats it at its end
keeps one.
-/

set_option autoImplicit false

namespace Calculator

/-- The extension of saved sessions. -/
def extension : List Char := ['.', 'a', 'r', 'i', 't', 'h']

/-- The end of a name read backwards, with the extension standing there at most once. -/
def foldExtension (backwards : List Char) : List Char :=
  if (extension ++ extension).reverse.isPrefixOf backwards then
    foldExtension (backwards.drop extension.length)
  else backwards
termination_by backwards.length
decreasing_by
  have htwice : (extension ++ extension).reverse <+: backwards :=
    List.isPrefixOf_iff_prefix.mp (by assumption)
  have hlength : 12 ≤ backwards.length := htwice.length_le
  have hdrop : (backwards.drop extension.length).length = backwards.length - 6 :=
    List.length_drop
  omega

/-- The path under which a session of a name is saved. -/
def savePath (name : String) : String :=
  let backwards := foldExtension name.toList.reverse
  if extension.reverse.isPrefixOf backwards then String.ofList backwards.reverse
  else String.ofList (backwards.reverse ++ extension)

end Calculator
