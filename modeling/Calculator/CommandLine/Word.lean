import Calculator.Text.Digit
import Calculator.Text.Quoted

/-!
# Words of the command line

Each argument of the command line is a plain word, the separator after which all words are plain, or
an option. An option may be spelled in full, by a beginning that no other option shares, or as a
single letter with more letters or a value behind it.
-/

set_option autoImplicit false

namespace Calculator

/-- The options of the command line. -/
inductive Switch where
  | help
  | debug
  | file
  | expr
  | emit
  | noColor
deriving DecidableEq, Repr

namespace Switch

/-- The spellings of the options, in the order in which they are offered. -/
def spellings : List (String × Switch) :=
  [("-h", .help), ("--help", .help), ("-d", .debug), ("--debug", .debug), ("-f", .file),
   ("--file", .file), ("-e", .expr), ("--expr", .expr), ("--emit", .emit), ("--no-color", .noColor)]

/-- The option that has a spelling. -/
def ofSpelling? (spelling : String) : Option Switch := spellings.lookup spelling

/-- All spellings of an option, as messages name it. -/
def title (s : Switch) : String :=
  "/".intercalate ((spellings.filter (·.2 == s)).map (·.1))

/-- Whether an option takes a value. -/
def takesValue : Switch → Bool
  | .file | .expr | .emit => true
  | .help | .debug | .noColor => false

end Switch

/-- Why a command line is refused. -/
inductive UsageError where
  | ambiguous (word : String) (candidates : List String)
  | missingValue (switch : Switch)
  | needlessValue (switch : Switch) (value : String)
  | invalidChoice (value : String) (choices : List String)
  | unrecognized (words : List String)
deriving DecidableEq, Repr

namespace UsageError

/-- The wording of a refusal. -/
def message : UsageError → String
  | .ambiguous word candidates =>
    "ambiguous option: " ++ word ++ " could match " ++ ", ".intercalate candidates
  | .missingValue switch => "argument " ++ switch.title ++ ": expected one argument"
  | .needlessValue switch value =>
    "argument " ++ switch.title ++ ": ignored explicit argument " ++ Text.quoted value
  | .invalidChoice value choices =>
    "argument " ++ Switch.emit.title ++ ": invalid choice: " ++ Text.quoted value ++
      " (choose from " ++ ", ".intercalate (choices.map Text.quoted) ++ ")"
  | .unrecognized words => "unrecognized arguments: " ++ " ".intercalate words

end UsageError

/-- A classed argument of the command line. -/
inductive Word where
  | plain (text : String)
  | separator
  /-- An option, whether it is spelled by its letter, and the value attached to it. -/
  | option (switch : Switch) (byLetter : Bool) (value : Option String)
  | unknown (text : String)
deriving DecidableEq, Repr

namespace Word

/-- Whether what follows a minus sign makes a negative number; a newline may end it. -/
def isNumeric (cs : List Char) : Bool :=
  let cs := if cs.getLast? == some '\n' then cs.dropLast else cs
  match cs.dropWhile Text.isDigit with
  | [] => !cs.isEmpty
  | '.' :: places => !places.isEmpty && places.all Text.isDigit
  | _ => false

/-- The part before the first equals sign, and the part after it if there is such a sign. -/
def splitValue (cs : List Char) : List Char × Option (List Char) :=
  match cs.dropWhile (· != '=') with
  | [] => (cs, none)
  | _ :: value => (cs.takeWhile (· != '='), some value)

/-- The options that an argument may abbreviate, each with its spelling and the value attached. A long
one matches every spelling that it begins, a short one the option of its first letter. -/
def candidates (cs : List Char) : List (String × Switch × Option String) :=
  match cs with
  | '-' :: '-' :: _ =>
    let parts := splitValue cs
    Switch.spellings.filterMap fun (spelling, switch) =>
      if parts.1.isPrefixOf spelling.toList then
        some (spelling, switch, parts.2.map String.ofList)
      else none
  | '-' :: letter :: value =>
    Switch.spellings.filterMap fun (spelling, switch) =>
      if spelling.toList = ['-', letter] then some (spelling, switch, some (String.ofList value))
      else none
  | _ => []

/-- Whether a spelling consists of a letter. -/
def isLetter (spelling : String) : Bool := (spelling.toList.drop 1).head? != some '-'

/-- An option under one of its spellings. -/
def ofSpelling (spelling : String) (switch : Switch) (value : Option String) : Word :=
  .option switch (isLetter spelling) value

/-- The option that an argument spells in full, with the value that an equals sign attaches. -/
def inFull? (text : String) : Option Word :=
  match Switch.ofSpelling? text with
  | some switch => some (ofSpelling text switch none)
  | none =>
    match splitValue text.toList with
    | (_, none) => none
    | (name, some value) =>
      (Switch.ofSpelling? (String.ofList name)).map fun switch =>
        ofSpelling (String.ofList name) switch (some (String.ofList value))

/-- Classes an argument before the separator. -/
def classify (text : String) : Except UsageError Word :=
  if text.toList.head? != some '-' || text = "-" then .ok (.plain text)
  else
    match inFull? text with
    | some word => .ok word
    | none =>
      match candidates text.toList with
      | [(spelling, switch, value)] => .ok (ofSpelling spelling switch value)
      | [] =>
        if isNumeric (text.toList.drop 1) || text.toList.contains ' ' then .ok (.plain text)
        else .ok (.unknown text)
      | several => .error (.ambiguous text (several.map (·.1)))

/-- Classes the arguments of a command line. -/
def classifyAll : List String → Except UsageError (List Word)
  | [] => .ok []
  | text :: rest =>
    if text = "--" then .ok (.separator :: rest.map .plain)
    else do
      let word ← classify text
      let others ← classifyAll rest
      return word :: others

end Word

end Calculator
