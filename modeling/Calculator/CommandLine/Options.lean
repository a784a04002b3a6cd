import Calculator.CommandLine.Word
import Calculator.Emit

/-!
# Options of the command line

The words of a command line are read from left to right. Words that no option takes are collected,
and refuse the command line at its end.
-/

set_option autoImplicit false

namespace Calculator

/-- What a command line asks for. -/
structure Options where
  verbosity : Nat
  files : List String
  expr : Option String
  emit : Emit
  color : Bool
deriving DecidableEq, Repr

/-- Why a command line leads to no run: it asks for help, or it is refused. -/
inductive Refusal where
  | help
  | usage (e : UsageError)
deriving DecidableEq, Repr

namespace Options

/-- What an empty command line asks for. -/
def default : Options := ⟨0, [], none, .value, true⟩

/-- How text is painted: as colour has it, unless it is switched off. -/
def painter (options : Options) (colored : String → String) : String → String :=
  if options.color then colored else id

/-- An option that has been read, with its value. -/
structure Setting where
  switch : Switch
  value : String
deriving DecidableEq, Repr

/-- A text as an attached value; an empty one is no value. -/
def attachment : List Char → Option (List Char)
  | [] => none
  | c :: cs => some (c :: cs)

/-- Reads an option with the value attached to it, and returns the settings and the words after it. A
flag spelled by its letter may have the letters of further options behind it; a value that is not
attached is the next word. -/
def readSwitch (switch : Switch) (byLetter : Bool) (value : Option (List Char))
    (rest : List Word) : Except UsageError (List Setting × List Word) :=
  match value with
  | none =>
    if switch.takesValue then
      match rest with
      | .plain text :: others => .ok ([⟨switch, text⟩], others)
      | _ => .error (.missingValue switch)
    else .ok ([⟨switch, ""⟩], rest)
  | some attached =>
    if switch.takesValue then .ok ([⟨switch, String.ofList attached⟩], rest)
    else
      let refused : UsageError := .needlessValue switch (String.ofList attached)
      match attached with
      | [] => .error refused
      | letter :: more =>
        match byLetter, Switch.ofSpelling? (String.ofList ['-', letter]) with
        | true, some next => do
          let others ← readSwitch next true (attachment more) rest
          return (⟨switch, ""⟩ :: others.1, others.2)
        | _, _ => .error refused
termination_by (value.map List.length).getD 0
decreasing_by
  cases more <;> simp [attachment]

/-- Applies a setting. -/
def apply (options : Options) (setting : Setting) : Except Refusal Options :=
  match setting.switch with
  | .help => .error .help
  | .debug => .ok { options with verbosity := options.verbosity + 1 }
  | .file => .ok { options with files := options.files ++ [setting.value] }
  | .expr => .ok { options with expr := some setting.value }
  | .emit =>
    match Emit.ofName? setting.value with
    | some emit => .ok { options with emit := emit }
    | none => .error (.usage (.invalidChoice setting.value (Emit.names.map (·.1))))
  | .noColor => .ok { options with color := false }

/-- Applies settings in turn. -/
def applyAll (options : Options) (settings : List Setting) : Except Refusal Options :=
  settings.foldlM apply options

/-- Reading a switch leaves no more words than there were. -/
theorem readSwitch_length_le {switch : Switch} {byLetter : Bool} {value : Option (List Char)}
    {rest : List Word} {settings : List Setting} {others : List Word}
    (h : readSwitch switch byLetter value rest = .ok (settings, others)) :
    others.length ≤ rest.length := by
  fun_induction readSwitch switch byLetter value rest generalizing settings others with
  | case1 => simp_all
  | case2 => simp_all
  | case3 => simp_all
  | case4 => simp_all
  | case5 => simp_all
  | case6 switch hflag letter more next hnext ih =>
      simp only [bind, Except.bind] at h
      split at h
      · cases h
      · rename_i tail hread
        cases h
        exact ih hread
  | case7 => simp_all

/-- Reads words in turn; `extras` are the words so far that no option took. -/
def readWords (options : Options) (extras : List String) (words : List Word) :
    Except Refusal (Options × List String) :=
  match words with
  | [] => .ok (options, extras)
  | .plain text :: rest => readWords options (extras ++ [text]) rest
  | .unknown text :: rest => readWords options (extras ++ [text]) rest
  | .separator :: rest => readWords options (extras ++ ["--"]) rest
  | .option switch byLetter value :: rest =>
    match _h : readSwitch switch byLetter (value.map String.toList) rest with
    | .error e => .error (.usage e)
    | .ok (settings, others) =>
      match options.applyAll settings with
      | .error refusal => .error refusal
      | .ok updated => readWords updated extras others
termination_by words.length
decreasing_by
  · simp
  · simp
  · simp
  · exact Nat.lt_succ_of_le (readSwitch_length_le _h)

/-- What the arguments of a command line ask for. -/
def ofArguments (arguments : List String) : Except Refusal Options :=
  match Word.classifyAll arguments with
  | .error e => .error (.usage e)
  | .ok words =>
    match readWords default [] words with
    | .error refusal => .error refusal
    | .ok (options, []) => .ok options
    | .ok (_, extras) => .error (.usage (.unrecognized extras))

end Options

end Calculator
