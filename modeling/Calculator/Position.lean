/-!
# Positions

A position is a line and a column of a text. Lines are counted by newline characters alone and
columns by characters, both from one.
-/

set_option autoImplicit false

namespace Calculator

/-- A place in a text, as a line and a column. -/
structure Position where
  line : Int
  column : Int
deriving DecidableEq, Repr

namespace Position

/-- The place of the first character of a text. -/
def start : Position := ⟨1, 1⟩

/-- The place after one character: a newline opens the next line, any other character is one
column wide. -/
def after (p : Position) (c : Char) : Position :=
  if c = '\n' then ⟨p.line + 1, 1⟩ else ⟨p.line, p.column + 1⟩

/-- The place after a run of characters. -/
def along (p : Position) (cs : List Char) : Position := cs.foldl after p

/-- A position as it is written in messages: line, colon, column. -/
def text (p : Position) : String := toString p.line ++ ":" ++ toString p.column

/-- No characters lead from a position to itself. -/
@[simp] theorem along_nil (p : Position) : p.along [] = p := rfl

/-- The first of some characters is passed before the others. -/
@[simp] theorem along_cons (p : Position) (c : Char) (cs : List Char) :
    p.along (c :: cs) = (p.after c).along cs := rfl

/-- Two runs of characters are passed one after the other. -/
theorem along_append (p : Position) (cs ds : List Char) :
    p.along (cs ++ ds) = (p.along cs).along ds := List.foldl_append

end Position

end Calculator
