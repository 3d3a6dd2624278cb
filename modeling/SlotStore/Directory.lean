import SlotStore.File

/-!
Folders with files in them. A path that leads through a file, or through a folder that is not
there, leads nowhere.
-/

namespace SlotStore

/-- The names that lead from the working folder to a file; none leads to the folder itself. A last
name `.` asks for a folder. -/
abbrev Path := List String

/-- The path that a text spells. -/
def Path.ofText (text : String) : Path :=
  let names := text.splitOn "/"
  let core := names.filter fun name => name != "" && name != "."
  let asksFolder := !core.isEmpty && (names.getLast? == some "" || names.getLast? == some ".")
  (if text.startsWith "/" then ["/"] else []) ++ core ++ if asksFolder then ["."] else []

/-- Files by path, and the folders besides the working folder. -/
structure Directory where
  files : List (Path × File) := []
  folders : List Path := []

inductive Place where
  | file (file : File)
  | folder
  /-- Nothing, but a file can be made there. -/
  | vacant

namespace Directory

def isFolder (directory : Directory) (path : Path) : Bool :=
  let folder := if path.getLast? = some "." then path.dropLast else path
  folder.isEmpty || directory.folders.contains folder

/-- Some folder on the way of a path is a file. -/
def isBlocked (directory : Directory) (path : Path) : Bool :=
  directory.files.any fun entry => entry.1 != path && entry.1.isPrefixOf path

def find (directory : Directory) (path : Path) : Except FileFailure Place :=
  if directory.isFolder path then .ok .folder
  else
    match directory.files.lookup path with
    | some file => .ok (.file file)
    | none =>
      if directory.isBlocked path then .error .notFolder
      else if directory.isFolder path.dropLast then .ok .vacant
      else .error .notFound

def holds (directory : Directory) (path : Path) : Bool :=
  match directory.find path with
  | .ok (.file _) | .ok .folder => true
  | .ok .vacant | .error _ => false

def read (directory : Directory) (path : Path) : Except FileFailure File :=
  match directory.find path with
  | .ok (.file file) => .ok file
  | .ok .folder => .error .isFolder
  | .ok .vacant => .error .notFound
  | .error failure => .error failure

/-- The file to write to at a path; none if it has to be made. -/
def target (directory : Directory) (path : Path) : Except FileFailure (Option File) :=
  match directory.find path with
  | .ok (.file file) => .ok (some file)
  | .ok .vacant => .ok none
  | .ok .folder => .error .isFolder
  | .error failure => .error failure

/-- The directory with a file at a path, in the place of what was there. -/
def put (directory : Directory) (path : Path) (file : File) : Directory :=
  { directory with files := (path, file) :: directory.files.filter fun entry => entry.1 != path }

end Directory

end SlotStore
