import SlotStore.Command.Running

/-!
The program. What the file system holds on the paths of the arguments is read, the command is run
on it, and the files that the command changed are written.
-/

namespace SlotStore

def Path.text (path : Path) : String := "/".intercalate path

/-- Puts what the file system holds at a path into a directory. -/
def Directory.load (directory : Directory) (path : Path) : IO Directory := do
  try
    return directory.put path ⟨← IO.FS.readBinFile path.text⟩
  catch
    | .inappropriateType _ 21 _ => return { directory with folders := path :: directory.folders }
    | _ => return directory

/-- A directory with all that lies on the paths that arguments may spell. -/
def Directory.ofNames (names : List String) : IO Directory :=
  let paths := names.flatMap fun name =>
    let path := Path.ofText name
    (List.range path.length).map fun count => path.take (count + 1)
  paths.eraseDups.foldlM Directory.load {}

/-- Writes the files that are not as they were before. -/
def Directory.save (directory before : Directory) : IO Unit :=
  directory.files.forM fun (path, file) =>
    if before.files.lookup path = some file then pure ()
    else IO.FS.writeBinFile path.text file.content

end SlotStore

open SlotStore

def main (arguments : List String) : IO UInt32 := do
  match Invocation.ofArguments arguments with
  | .error .helpWanted =>
    (← IO.getStdout).putStr usage
    return 0
  | .error .misused =>
    (← IO.getStderr).putStr usage
    return 2
  | .ok invocation =>
    let before ← Directory.ofNames invocation.names
    let (outcome, workspace) := invocation.run { directory := before }
    workspace.directory.save before
    (← IO.getStdout).write ⟨outcome.output.toArray⟩
    (← IO.getStderr).putStr outcome.complaint
    return UInt32.ofNat outcome.code
