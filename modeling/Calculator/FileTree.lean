import Calculator.Text.Quoted

/-!
# File trees

A file tree is a working directory: its files with their bytes, and its directories. A path may also
lead out of it, where directories are empty but for what is written there.
-/

set_option autoImplicit false

namespace Calculator

/-- Why a file cannot be opened. -/
inductive FileError where
  | notFound
  | notDirectory
  | isDirectory
  | nameTooLong
deriving DecidableEq, Repr

namespace FileError

/-- The number of an error. -/
def code : FileError → Nat
  | .notFound => 2
  | .notDirectory => 20
  | .isDirectory => 21
  | .nameTooLong => 36

/-- The wording of an error. -/
def reason : FileError → String
  | .notFound => "No such file or directory"
  | .notDirectory => "Not a directory"
  | .isDirectory => "Is a directory"
  | .nameTooLong => "File name too long"

/-- The whole message of an error for a path. -/
def message (e : FileError) (path : String) : String :=
  "[Errno " ++ toString e.code ++ "] " ++ e.reason ++ ": " ++ Text.quoted path

end FileError

/-- A file with its bytes, or a directory. -/
inductive FileNode where
  | file (bytes : ByteArray)
  | directory

/-- The names on the way from the working directory to a file or directory. A place outside it starts
with two dots for every step up, or with the slash of the root. -/
abbrev FilePlace := List String

namespace FilePlace

/-- The place one step up; the root stays where it is. -/
def parent (place : FilePlace) : FilePlace :=
  match place.getLast? with
  | none | some ".." => place ++ [".."]
  | some "/" => place
  | some _ => place.dropLast

/-- Whether a place is the working directory, one above it, or the root: all of these exist. -/
def isAncestor (place : FilePlace) : Bool := place.all (· == "..") || place == ["/"]

/-- Whether a place is in the working directory. -/
def isInside (place : FilePlace) : Bool := place.head? != some ".." && place.head? != some "/"

/-- The place where the way of a path starts. -/
def start (path : String) : FilePlace := if path.toList.head? = some '/' then ["/"] else []

/-- The names on a path, between its slashes. -/
def names (path : String) : List String := (path.toList.splitOn '/').map String.ofList

end FilePlace

/-- Files and directories by their places. A directory that holds something need not be listed. -/
structure FileTree where
  nodes : List (FilePlace × FileNode)

namespace FileTree

/-- The most bytes that a name on a path may have. -/
def longestName : Nat := 255

/-- The most bytes that a whole path may have. -/
def longestPath : Nat := 4095

/-- A tree with nothing in it. -/
def empty : FileTree := ⟨[]⟩

/-- What stands at a place. -/
def get? (tree : FileTree) (place : FilePlace) : Option FileNode :=
  match tree.nodes.find? (·.1 == place) with
  | some node => some node.2
  | none =>
    if place.isAncestor || tree.nodes.any (fun node => place.isPrefixOf node.1) then some .directory
    else none

/-- A tree with a node put at a place, instead of what stood there. -/
def insert (tree : FileTree) (place : FilePlace) (node : FileNode) : FileTree :=
  if tree.nodes.any (·.1 == place) then
    ⟨tree.nodes.map fun entry => if entry.1 == place then (place, node) else entry⟩
  else ⟨tree.nodes ++ [(place, node)]⟩

/-- The place that names lead to from a directory. Every name but the last has to lead to a directory,
and the last to none; an empty name and a single dot stay where they are, two dots go up. The length of
a name matters only once it is looked up. -/
def walk (tree : FileTree) (place : FilePlace) : List String → Except FileError FilePlace
  | [] => .error .isDirectory
  | name :: rest =>
    if name = "" ∨ name = "." then walk tree place rest
    else if name = ".." then walk tree place.parent rest
    else if longestName < name.utf8ByteSize then .error .nameTooLong
    else
      let next := place ++ [name]
      match tree.get? next, rest with
      | some .directory, _ => walk tree next rest
      | some (.file _), [] => .ok next
      | some (.file _), _ :: _ => .error .notDirectory
      | none, [] => .ok next
      | none, _ :: _ => .error .notFound

/-- The place of the file that a path names, whether or not it exists. -/
def locate (tree : FileTree) (path : String) : Except FileError FilePlace :=
  if path = "" then .error .notFound
  else if longestPath < path.utf8ByteSize then .error .nameTooLong
  else walk tree (FilePlace.start path) (FilePlace.names path)

/-- The bytes of the file that a path names. -/
def read (tree : FileTree) (path : String) : Except FileError ByteArray :=
  (tree.locate path).bind fun place =>
    match tree.get? place with
    | some (.file bytes) => .ok bytes
    | some .directory => .error .isDirectory
    | none => .error .notFound

/-- The tree after a text has been written to a file. -/
def write (tree : FileTree) (path text : String) : Except FileError FileTree :=
  (tree.locate path).map fun place => tree.insert place (.file text.toUTF8)

/-- The files in the working directory that another tree lacks or holds with other bytes. -/
def changes (tree before : FileTree) : List (FilePlace × ByteArray) :=
  (tree.nodes.filter (·.1.isInside)).filterMap fun
    | (place, .file bytes) =>
      match before.get? place with
      | some (.file old) => if old == bytes then none else some (place, bytes)
      | _ => some (place, bytes)
    | (_, .directory) => none

end FileTree

end Calculator
