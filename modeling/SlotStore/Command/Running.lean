import SlotStore.Command.Arguments
import SlotStore.Report
import SlotStore.Settings.Decoding
import SlotStore.Workspace

/-!
Running a command in a workspace. What was printed and stored before a failure stays; the failure
is reported from the outermost cause to the innermost. Whatever is open at the end is given up.
-/

namespace SlotStore

/-- Causes of a failure, the outermost first. -/
abbrev Causes := List String

/-- A failed file operation is reported with its reason once more. -/
def Fault.causes : Fault → Causes
  | .file failure => [(Fault.file failure).message, failure.message]
  | fault => [fault.message]

structure CommandState where
  workspace : Workspace
  output : Bytes := []

abbrev CommandStep := ExceptT Causes (StateM CommandState)

namespace CommandStep

def print (text : String) : CommandStep Unit :=
  modify fun state => { state with output := state.output ++ text.toUTF8.toList }

def printBytes (bytes : Bytes) : CommandStep Unit :=
  modify fun state => { state with output := state.output ++ bytes }

/-- An operation on the workspace; a failure is reported behind its context. -/
def attempt (context : Causes) (operation : Workspace → Attempt Workspace α) : CommandStep α := do
  let state ← get
  let (result, workspace) := operation state.workspace
  set { state with workspace := workspace }
  match result with
  | .ok value => return value
  | .error fault => throw (context ++ fault.causes)

def onArchive (archive : Archive) (operation : Archive → Attempt Archive α) :
    CommandStep (α × Archive) :=
  attempt [] fun workspace =>
    let (result, archive) := operation archive
    (result.map (·, archive), workspace.keep (.archive archive))

def close : CommandStep Unit :=
  attempt [] fun workspace => workspace.close.getD (.ok (), workspace)

def readFile (context : String) (name : String) : CommandStep File := do
  match (← get).workspace.files.read (.ofText name) with
  | .ok file => return file
  | .error failure => throw [context, failure.message]

def writeFile (name : String) (bytes : Bytes) : CommandStep Unit := do
  let path := Path.ofText name
  match (← get).workspace.files.target path with
  | .ok _ => modify fun state =>
    { state with workspace := state.workspace.store path (.ofBytes bytes) }
  | .error failure => throw [s!"writing {name}", failure.message]

def requireFile (name : String) : CommandStep Unit := do
  if !(← get).workspace.files.holds (.ofText name) then throw [s!"{name} does not exist"]

/-- The settings in a file, or the defaults without one. -/
def loadSettings : Option String → CommandStep Settings
  | none => return {}
  | some name =>
    attempt [s!"loading settings from {name}"] fun workspace =>
      (match workspace.files.read (.ofText name) with
        | .error failure => .error (.file failure)
        | .ok file => Settings.ofFile file, workspace)

def openContainer (settings : Settings) (name : String) : CommandStep Container :=
  attempt [s!"opening container {name}"] (·.openContainer (.ofText name) settings.container)

def openArchive (settings : Settings) (name : String) : CommandStep Archive :=
  attempt [s!"opening archive {name}"] (·.openArchive (.ofText name) settings)

/-- Stores files, and prints the key of each as soon as it is stored. -/
def storeInputs : List String → Archive → CommandStep Unit
  | [], _ => return
  | name :: rest, archive => do
    let file ← readFile s!"reading {name}" name
    let (key, archive) ← onArchive archive (·.put file.toList)
    print s!"{key.text}  {name}\n"
    storeInputs rest archive

def perform (settings : Settings) : Command → CommandStep Unit
  | .info name json => do
    requireFile name
    let stats := (← openContainer settings name).stats
    print (if json then stats.json.lines else stats.lines name)
  | .validate name => do
    requireFile name
    let container ← openContainer settings name
    let report ← attempt ["validating guards"] fun workspace =>
      let (result, container) := container.validate
      (result, workspace.keep (.container container))
    close
    print (JsonValue.object report.entries).lines
  | .put name inputs compress => do
    let settings :=
      if compress then { settings with archive.compression := CompressionSettings.lz4 }
      else settings
    storeInputs inputs (← openArchive settings name)
    close
  | .get name key output => do
    requireFile name
    let archive ← openArchive settings name
    let (blob, _) ← onArchive archive fun archive => (archive.get key, archive)
    match output with
    | some target => writeFile target blob
    | none => printBytes blob
  | .remove name key => do
    requireFile name
    let _ ← onArchive (← openArchive settings name) (·.delete key)
    close
  | .list name json => do
    requireFile name
    let entries := (← openArchive settings name).catalog
    print (if json then (JsonValue.array (entries.map (·.json))).lines
      else String.join (entries.map (·.line)))

end CommandStep

/-- What a run ends with: its exit code, what it printed, and the causes of a failure. -/
structure Outcome where
  code : Nat
  output : Bytes := []
  causes : Causes := []

/-- The causes in lines, the outermost first; nothing without one. -/
def Outcome.complaint (outcome : Outcome) : String :=
  match outcome.causes with
  | [] => ""
  | cause :: reasons =>
    String.join (s!"Error: {cause}\n" :: reasons.map fun reason => s!"  because: {reason}\n")

/-- Runs a command; the settings file is read first. -/
def Invocation.run (invocation : Invocation) (workspace : Workspace) : Outcome × Workspace :=
  let steps : CommandStep Unit := do
    CommandStep.perform (← CommandStep.loadSettings invocation.settingsFile) invocation.command
  let (result, state) := steps.run.run { workspace := workspace }
  let outcome : Outcome := match result with
    | .ok () => { code := 0, output := state.output }
    | .error causes => { code := 1, output := state.output, causes := causes }
  (outcome, state.workspace.leave)

/-- Runs what arguments spell; arguments that spell nothing have an exit code of their own. -/
def runArguments (workspace : Workspace) (arguments : List String) : Outcome × Workspace :=
  match Invocation.ofArguments arguments with
  | .ok invocation => invocation.run workspace
  | .error .misused => ({ code := 2 }, workspace)
  | .error .helpWanted => ({ code := 0 }, workspace)

end SlotStore
