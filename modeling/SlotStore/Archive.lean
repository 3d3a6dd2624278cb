import SlotStore.Archive.Catalog
import SlotStore.Compression
import SlotStore.Container.Append
import SlotStore.Container.Cursor
import SlotStore.Container.Loading

/-!
Archives: blobs under content keys, kept in the slots of a container. The root slot holds an anchor
with the number of entries and the slot of the header table; the header table holds a record for
each entry. Anchor and header table are written by a flush.
-/

namespace SlotStore

structure Archive where
  container : Container
  rootSlot : Nat
  /-- The slot that the anchor names for the header table; slot 0 stands for none. -/
  headerTable : Option Nat
  catalog : Catalog
  /-- Anchor or header table are out of date. -/
  dirty : Bool
  settings : ArchiveSettings
deriving DecidableEq

/-- The bookkeeping of an archive in numbers. -/
structure ArchiveStats where
  entries : Nat
  compressedEntries : Nat
  storedBytes : Nat
  uncompressedBytes : Nat
  rootSlot : Nat
  headerTableSlot : Option Nat
  container : ContainerStats
deriving DecidableEq, Repr

namespace Archive

/-- A new archive in a container without a root. -/
def createIn (container : Container) (settings : ArchiveSettings) :
    Except Fault Archive × Container :=
  match container.newEntry RootRecord.width with
  | (.error fault, container) => (.error fault, container)
  | (.ok rootSlot, container) =>
    match container.write rootSlot (RootRecord.ofArchive 0 0).encode 0 with
    | (.error fault, container) => (.error fault, container)
    | (.ok (), container) =>
      match container.setRoot rootSlot with
      | (.error fault, container) => (.error fault, container)
      | (.ok (), container) =>
        (.ok ⟨container, rootSlot, none, [], true, settings⟩, container)

def loadCatalog (container : Container) (anchor : RootRecord) : Except Fault Catalog :=
  let count := anchor.entryCount.toNat
  if count = 0 then .ok []
  else
    match container.read anchor.headerTable.toNat with
    | .error fault => .error fault
    | .ok table => Catalog.decode table count

/-- The archive stored in a container whose root is given. -/
def load (container : Container) (rootSlot : Nat) (settings : ArchiveSettings) :
    Except Fault Archive :=
  match container.read rootSlot with
  | .error fault => .error fault
  | .ok bytes =>
    match RootRecord.decode bytes with
    | .error fault => .error fault
    | .ok anchor =>
      match anchor.expect RootRecord.archiveSignature RootRecord.archiveVersion with
      | .error fault => .error fault
      | .ok () =>
        match loadCatalog container anchor with
        | .error fault => .error fault
        | .ok catalog =>
          let table := anchor.headerTable.toNat
          .ok ⟨container, rootSlot, if table = 0 then none else some table, catalog, false,
            settings⟩

/-- The archive in a container; one without a root gets a new archive. Where that fails the
container is given up. Answers also the file as it is afterwards. -/
def ofContainer (container : Container) (settings : ArchiveSettings) : Attempt File Archive :=
  match settings.check with
  | .error flaw => (.error (.settings flaw), container.leave)
  | .ok () =>
    match container.root with
    | none =>
      match createIn container settings with
      | (.error fault, container) => (.error fault, container.leave)
      | (.ok archive, container) => (.ok archive, container.file)
    | some rootSlot =>
      match load container rootSlot settings with
      | .error fault => (.error fault, container.leave)
      | .ok archive => (.ok archive, container.file)

/-- Opens a file as an archive, or creates one in an empty file. -/
def openFile (file : File) (settings : Settings) : Attempt File Archive :=
  match Container.openFile file settings.container with
  | (.error fault, file) => (.error fault, file)
  | (.ok container, _) => ofContainer container settings.archive

def unsaved (archive : Archive) : Bool := archive.dirty || archive.container.dirty

/-- The slot that a stored form goes to: the entry's own if that has room, else a new one. -/
def chooseSlot (container : Container) (existing : Option ArchiveEntry) (length : Nat) :
    Attempt Container Nat :=
  match existing with
  | none => container.newEntry length
  | some entry =>
    match container.entryCapacity entry.slot with
    | .error fault => (.error fault, container)
    | .ok capacity =>
      if length ≤ capacity then (.ok entry.slot, container) else container.newEntry length

/-- Puts a stored form into a slot and releases the slot that the entry leaves. Where filling fails
a slot that the entry did not have is released again. -/
def storeIn (container : Container) (existing : Option ArchiveEntry) (slot : Nat) (stored : Bytes) :
    Attempt Container Unit :=
  let moved := existing.all fun entry => entry.slot != slot
  match container.fill slot stored with
  | (.error fault, container) =>
    (.error fault, if moved then (container.release slot).2 else container)
  | (.ok (), container) =>
    match existing with
    | none => (.ok (), container)
    | some entry => if moved then container.release entry.slot else (.ok (), container)

/-- Stores a blob under a key. A key that is taken is a collision, unless the blob may replace what
the key names. -/
def write (archive : Archive) (key : ContentKey) (blob : Bytes) (overwrite : Bool) :
    Attempt Archive Unit :=
  let existing := archive.catalog.lookup? key
  if existing.isSome ∧ overwrite = false then (.error (.keyCollision key), archive)
  else
    let stored := (packBlob archive.settings.compression blob).1
    match chooseSlot archive.container existing stored.length with
    | (.error fault, container) => (.error fault, { archive with container := container })
    | (.ok slot, container) =>
      match storeIn container existing slot stored with
      | (.error fault, container) => (.error fault, { archive with container := container })
      | (.ok (), container) =>
        (.ok (), { archive with
          container := container
          catalog := archive.catalog.put ⟨key, slot, blob.length⟩
          dirty := true })

/-- Stores a blob under its own digest, unless it is there already. -/
def put (archive : Archive) (blob : Bytes) : Attempt Archive ContentKey :=
  let key := ContentKey.digest blob
  if archive.catalog.has key then (.ok key, archive)
  else
    match archive.write key blob false with
    | (.error fault, archive) => (.error fault, archive)
    | (.ok (), archive) => (.ok key, archive)

/-- The blob that a key names. A stored form of another length than the blob is compressed. -/
def get (archive : Archive) (key : ContentKey) : Except Fault Bytes :=
  match archive.catalog.lookup? key with
  | none => .error (.keyNotFound key)
  | some entry =>
    match archive.container.read entry.slot with
    | .error fault => .error fault
    | .ok stored =>
      if stored.length = entry.uncompressedSize then .ok stored
      else (CompressionMethod.lz4.decompress stored entry.uncompressedSize).mapError .compression

/-- Gives a blob another key; its slot is not touched. -/
def replaceKey (archive : Archive) (old new : ContentKey) : Attempt Archive Unit :=
  match archive.catalog.lookup? old with
  | none => (.error (.keyNotFound old), archive)
  | some entry =>
    if archive.catalog.has new then (.error (.keyCollision new), archive)
    else
      (.ok (), { archive with
        catalog := (archive.catalog.without old).put { entry with key := new }
        dirty := true })

/-- Releases a blob's slot and forgets its key. -/
def delete (archive : Archive) (key : ContentKey) : Attempt Archive Unit :=
  match archive.catalog.lookup? key with
  | none => (.error (.keyNotFound key), archive)
  | some entry =>
    match archive.container.release entry.slot with
    | (.error fault, container) => (.error fault, { archive with container := container })
    | (.ok (), container) =>
      (.ok (), { archive with
        container := container, catalog := archive.catalog.without key, dirty := true })

/-- The stored lengths of all entries, in key order. -/
def storedSizes (archive : Archive) : Except Fault (List Nat) :=
  archive.catalog.mapM fun entry => archive.container.entrySize entry.slot

def stats (archive : Archive) : Except Fault ArchiveStats :=
  archive.storedSizes.map fun sizes =>
    let fullSizes := archive.catalog.map (·.uncompressedSize)
    { entries := archive.catalog.length
      compressedEntries := (sizes.zip fullSizes).countP fun pair => pair.1 != pair.2
      storedBytes := sizes.foldl (· + ·) 0
      uncompressedBytes := fullSizes.foldl (· + ·) 0
      rootSlot := archive.rootSlot
      headerTableSlot := archive.headerTable
      container := archive.container.stats }

/-- A slot with room for every record, which the anchor will name: the present one if it has room,
else a new one. Without entries there need not be one. -/
def ensureHeaderTable (archive : Archive) : Attempt Archive Unit :=
  let needed := archive.catalog.length * HashRecord.width
  let fits : Except Fault Bool := match archive.headerTable with
    | some slot => (archive.container.entryCapacity slot).map fun capacity => decide (needed ≤ capacity)
    | none => .ok archive.catalog.isEmpty
  match fits with
  | .error fault => (.error fault, archive)
  | .ok true => (.ok (), archive)
  | .ok false =>
    let records := archive.settings.headerTableRecords archive.catalog.length
    match archive.container.newEntry (records * HashRecord.width) with
    | (.error fault, container) => (.error fault, { archive with container := container })
    | (.ok slot, container) =>
      match archive.headerTable with
      | none => (.ok (), { archive with container := container, headerTable := some slot })
      | some old =>
        match container.release old with
        | (.error fault, container) => (.error fault, { archive with container := container })
        | (.ok (), container) =>
          (.ok (), { archive with container := container, headerTable := some slot })

/-- Writes the header table, if there is one, and the anchor into their slots. -/
def fillTables (archive : Archive) : Attempt Archive Unit :=
  let anchor := RootRecord.ofArchive archive.catalog.length (archive.headerTable.getD 0)
  let (written, container) : Attempt Container Unit := match archive.headerTable with
    | none => (.ok (), archive.container)
    | some slot => archive.container.fill slot archive.catalog.encode
  match written with
  | .error fault => (.error fault, { archive with container := container })
  | .ok () =>
    let (result, container) := container.fill archive.rootSlot anchor.encode
    (result, { archive with container := container })

/-- Brings header table and anchor up to date. -/
def writeTables (archive : Archive) : Attempt Archive Unit :=
  if 0x100000000 ≤ archive.catalog.length then
    (.error (.overflow (.entries archive.catalog.length)), archive)
  else
    match archive.ensureHeaderTable with
    | (.error fault, archive) => (.error fault, archive)
    | (.ok (), archive) => archive.fillTables

/-- Stores header table and anchor if they are out of date, then flushes the container. -/
def flush (archive : Archive) : Attempt Archive Unit :=
  let (written, archive) : Attempt Archive Unit :=
    if archive.dirty then
      match archive.writeTables with
      | (.error fault, archive) => (.error fault, archive)
      | (.ok (), archive) => (.ok (), { archive with dirty := false })
    else (.ok (), archive)
  match written with
  | .error fault => (.error fault, archive)
  | .ok () =>
    let (result, container) := archive.container.flush
    (result, { archive with container := container })

/-- Gives an archive up. What is unsaved is flushed, whatever comes of it; the file stays. -/
def leave (archive : Archive) : File :=
  let archive := if archive.dirty then archive.flush.2 else archive
  archive.container.leave

/-- Flushes and gives the archive up; after a failure the flush is tried once more. -/
def close (archive : Archive) : Attempt File Unit :=
  let (result, archive) := archive.flush
  (result, archive.leave)

end Archive

/-- What a caller wants opened: a path, and settings that may be adjusted one by one. -/
structure ArchiveRequest where
  path : Option String := none
  settings : Settings := {}

namespace ArchiveRequest

def withCompression (request : ArchiveRequest) : ArchiveRequest :=
  { request with settings.archive.compression := CompressionSettings.lz4 }

def withIdleTimeout (request : ArchiveRequest) (micros : Option Nat) : ArchiveRequest :=
  { request with settings.container := request.settings.container.withIdleTimeout micros }

def withValidation (request : ArchiveRequest) (validate : Bool) : ArchiveRequest :=
  { request with settings.container.validateOnOpen := validate }

def withHeaderTableMinimum (request : ArchiveRequest) (records : Nat) : ArchiveRequest :=
  { request with settings.archive.tableMinimum := records }

/-- The path to open; a request without one is refused. -/
def target (request : ArchiveRequest) : Except Fault String :=
  match request.path with
  | some path => .ok path
  | none => .error (.settings .pathMissing)

end ArchiveRequest

end SlotStore
