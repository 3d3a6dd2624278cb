import SlotStore.ContentKey

/-!
Arguments of the command line: a command, its operands, and options before or after the command.
An option has a long name after `--`, and may have a letter after `-`; letters may be joined. A
value follows as the next argument, after `=`, or right after the letter. No option is given twice
at one level; after `--` everything is an operand.
-/

namespace SlotStore

/-- What the program is asked to do with a file. -/
inductive Command where
  | info (file : String) (json : Bool)
  | validate (file : String)
  | put (file : String) (inputs : List String) (compress : Bool)
  | get (file : String) (key : ContentKey) (output : Option String)
  | remove (file : String) (key : ContentKey)
  | list (file : String) (json : Bool)

structure Invocation where
  settingsFile : Option String
  command : Command

def Invocation.names (invocation : Invocation) : List String :=
  invocation.settingsFile.toList ++ match invocation.command with
    | .info file _ | .validate file | .remove file _ | .list file _ => [file]
    | .put file inputs _ => file :: inputs
    | .get file _ output => file :: output.toList

def usage : String := String.join ([
  "Usage: slotstore [-c SETTINGS] [-v] COMMAND",
  "  info FILE [--json]                show the numbers of a container",
  "  validate FILE                     rescan the guards and repair the slot table",
  "  put FILE INPUT... [--compress]    store files and print their keys",
  "  get FILE KEY [-o OUTPUT]          fetch a blob",
  "  rm FILE KEY                       remove a blob",
  "  ls FILE [--json]                  list the blobs"].map (· ++ "\n"))

inductive ArgumentFlaw where
  | misused
  | helpWanted
deriving DecidableEq, Repr

/-- An option: its names, and whether a value belongs to it. -/
structure OptionForm where
  name : String
  letter : Option Char := none
  takesValue : Bool := false

/-- Options that are known before and after the command. -/
def generalOptions : List OptionForm := [
  { name := "config", letter := some 'c', takesValue := true },
  { name := "verbose", letter := some 'v' },
  { name := "help", letter := some 'h' }]

/-- Options of a command; none for a word that is no command. -/
def commandOptions : String → Option (List OptionForm)
  | "info" | "ls" => some [{ name := "json" }]
  | "validate" | "rm" => some []
  | "put" => some [{ name := "compress" }]
  | "get" => some [{ name := "output", letter := some 'o', takesValue := true }]
  | _ => none

abbrev OptionValues := List (String × String)

structure ArgumentState where
  /-- The option whose value comes next. -/
  pending : Option String := none
  onlyOperands : Bool := false
  /-- The options before the command. -/
  outer : OptionValues := []
  command : Option String := none
  forms : List OptionForm := generalOptions
  options : OptionValues := []
  operands : List String := []

namespace ArgumentState

/-- Notes an option with its value; it must be new at its level. -/
def note (state : ArgumentState) (name value : String) : Except ArgumentFlaw ArgumentState :=
  if name = "help" then .error .helpWanted
  else if (state.options.lookup name).isSome then .error .misused
  else .ok { state with options := (name, value) :: state.options }

/-- Notes an option's value, which is the name of a file and so not empty. -/
def noteValue (state : ArgumentState) (name value : String) : Except ArgumentFlaw ArgumentState :=
  if value.isEmpty then .error .misused else { state with pending := none }.note name value

/-- A long option, with the value after an equals sign if there is one. -/
def readLong (state : ArgumentState) (body : List Char) : Except ArgumentFlaw ArgumentState :=
  let name := String.ofList (body.takeWhile (· != '='))
  match state.forms.find? (·.name == name), body.dropWhile (· != '=') with
  | none, _ => .error .misused
  | some form, [] =>
    if form.takesValue then .ok { state with pending := some name } else state.note name ""
  | some form, _ :: value =>
    if form.takesValue then state.noteValue name (String.ofList value) else .error .misused

/-- Joined letters; the first that takes a value takes what follows it. -/
def readLetters (state : ArgumentState) : List Char → Except ArgumentFlaw ArgumentState
  | [] => .ok state
  | letter :: rest =>
    match state.forms.find? (·.letter == some letter), rest with
    | none, _ => .error .misused
    | some form, rest =>
      if form.takesValue then
        match rest with
        | [] => .ok { state with pending := some form.name }
        | '=' :: value => state.noteValue form.name (String.ofList value)
        | value => state.noteValue form.name (String.ofList value)
      else
        match state.note form.name "" with
        | .error flaw => .error flaw
        | .ok state => state.readLetters rest

def readOperand (state : ArgumentState) (word : String) : Except ArgumentFlaw ArgumentState :=
  match state.command with
  | some _ => .ok { state with operands := state.operands ++ [word] }
  | none =>
    if word = "help" then .error .helpWanted
    else
      match commandOptions word with
      | none => .error .misused
      | some forms =>
        .ok { state with
          command := some word, outer := state.options, options := []
          forms := forms ++ generalOptions }

def read (state : ArgumentState) (argument : String) : Except ArgumentFlaw ArgumentState :=
  match state.pending, argument.toList with
  | some _, '-' :: _ :: _ => .error .misused
  | some name, _ => state.noteValue name argument
  | none, chars =>
    if state.onlyOperands then
      if state.command.isNone then .error .misused else state.readOperand argument
    else
      match chars with
      | ['-', '-'] => .ok { state with onlyOperands := true }
      | '-' :: '-' :: body => state.readLong body
      | '-' :: letter :: rest => state.readLetters (letter :: rest)
      | _ => state.readOperand argument

def has (state : ArgumentState) (name : String) : Bool := (state.options.lookup name).isSome

/-- The command with its operands: no empty file name, and a key that is one. -/
def finish (state : ArgumentState) : Except ArgumentFlaw Invocation := do
  if state.pending.isSome || state.operands.any String.isEmpty then .error .misused
  let keyOf (text : String) := (ContentKey.parse text).mapError fun _ => ArgumentFlaw.misused
  let command : Command ← match state.command, state.operands with
    | some "info", [file] => pure (.info file (state.has "json"))
    | some "validate", [file] => pure (.validate file)
    | some "put", file :: inputs => pure (.put file inputs (state.has "compress"))
    | some "get", [file, key] => do pure (.get file (← keyOf key) (state.options.lookup "output"))
    | some "rm", [file, key] => do pure (.remove file (← keyOf key))
    | some "ls", [file] => pure (.list file (state.has "json"))
    | _, _ => .error .misused
  return ⟨(state.options.lookup "config").or (state.outer.lookup "config"), command⟩

end ArgumentState

def Invocation.ofArguments (arguments : List String) : Except ArgumentFlaw Invocation := do
  (← arguments.foldlM ArgumentState.read {}).finish

end SlotStore
