import SlotStore.Archive
import SlotStore.Directory

/-!
A directory together with at most one container or archive that is open in it. Opening gives up
what was open before; giving up flushes what is unsaved.
-/

namespace SlotStore

/-- What is open: a container on its own, or an archive with its container. -/
inductive OpenStore where
  | container (container : Container)
  | archive (archive : Archive)

namespace OpenStore

def base : OpenStore → Container
  | .container store => store
  | .archive store => store.container

def withFile (store : OpenStore) (file : File) : OpenStore :=
  match store with
  | .container own => .container { own with file := file }
  | .archive own => .archive { own with container := { own.container with file := file } }

def leave : OpenStore → File
  | .container store => store.leave
  | .archive store => store.leave

def close : OpenStore → Attempt File Unit
  | .container store => store.close
  | .archive store => store.close

end OpenStore

structure Workspace where
  /-- The files; that of the open store is as it was before opening. -/
  directory : Directory := {}
  opened : Option (Path × OpenStore) := none

namespace Workspace

def files (workspace : Workspace) : Directory :=
  match workspace.opened with
  | some (path, store) => workspace.directory.put path store.base.file
  | none => workspace.directory

def file? (workspace : Workspace) (path : Path) : Option File := workspace.files.files.lookup path

/-- Puts a file at a path, also beneath the open store. -/
def store (workspace : Workspace) (path : Path) (file : File) : Workspace where
  directory := workspace.directory.put path file
  opened := workspace.opened.map fun (openPath, store) =>
    (openPath, if openPath = path then store.withFile file else store)

/-- Changes the bytes at a path; a file that is not there counts as empty. -/
def change (workspace : Workspace) (path : Path) (change : File → File) : Workspace :=
  workspace.store path (change ((workspace.file? path).getD .empty))

/-- Replaces the open store by its next state. -/
def keep (workspace : Workspace) (store : OpenStore) : Workspace :=
  { workspace with opened := workspace.opened.map fun (path, _) => (path, store) }

def leave (workspace : Workspace) : Workspace :=
  match workspace.opened with
  | some (path, store) => { workspace with opened := none }.store path store.leave
  | none => workspace

def close (workspace : Workspace) : Option (Attempt Workspace Unit) :=
  workspace.opened.map fun (path, store) =>
    let (result, file) := store.close
    (result, { workspace with opened := none }.store path file)

/-- Ends without flushing: the file at a path keeps its bytes of now. -/
def crash (workspace : Workspace) (path : Path) : Workspace :=
  match workspace.file? path with
  | some file => workspace.leave.store path file
  | none => workspace.leave

/-- The workspace after an attempt to open. A failure leaves only the file, and none where none was
and nothing was written. -/
def adopt (workspace : Workspace) (path : Path) (wrap : Value → OpenStore) :
    Attempt File Value → Attempt Workspace Value
  | (.ok value, file) =>
    (.ok value, { workspace.store path file with opened := some (path, wrap value) })
  | (.error fault, file) =>
    (.error fault,
      if file.size = 0 ∧ workspace.file? path = none then workspace else workspace.store path file)

/-- Opens what a file holds, after giving up what was open. -/
def openWith (workspace : Workspace) (path : Path) (wrap : Value → OpenStore)
    (load : File → Attempt File Value) : Attempt Workspace Value :=
  let left := workspace.leave
  match left.directory.target path with
  | .error failure => (.error (.file failure), left)
  | .ok found => left.adopt path wrap (load (found.getD .empty))

def openContainer (workspace : Workspace) (path : Path) (settings : ContainerSettings) :
    Attempt Workspace Container :=
  workspace.openWith path .container fun file => Container.openFile file settings

def openArchive (workspace : Workspace) (path : Path) (settings : Settings) :
    Attempt Workspace Archive :=
  workspace.openWith path .archive fun file => Archive.openFile file settings

/-- Opens the archive that a request asks for. -/
def openRequest (workspace : Workspace) (request : ArchiveRequest) : Attempt Workspace Archive :=
  match request.target with
  | .error fault => (.error fault, workspace.leave)
  | .ok path => workspace.openArchive (.ofText path) request.settings

/-- Turns the open container into the archive in it; none unless a container is open. -/
def becomeArchive (workspace : Workspace) (settings : ArchiveSettings) :
    Option (Attempt Workspace Archive) :=
  match workspace.opened with
  | some (path, .container container) =>
    some ({ workspace with opened := none }.adopt path .archive
      (Archive.ofContainer container settings))
  | _ => none

end Workspace

end SlotStore
