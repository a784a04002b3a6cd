/-!
# Aborts

An abort ends a run at once and leaves no result. Every other failure is reported, and the run goes
on.
-/

set_option autoImplicit false

namespace Calculator

/-- Why a run is given up. -/
inductive Abort where
  /-- A path that is to be opened holds the null character. -/
  | nullInPath
  /-- A file that is to be evaluated is not well-formed text. -/
  | notText
deriving DecidableEq, Repr

namespace Abort

/-- The wording of an abort. -/
def reason : Abort → String
  | .nullInPath => "embedded null byte"
  | .notText => "not UTF-8 text"

/-- Refuses a path with the null character, which ends a name in a file system and so cannot be part
of one. -/
def checkPath (path : String) : Except Abort Unit :=
  if path.toList.contains '\x00' then .error .nullInPath else .ok ()

end Abort

end Calculator
