import SlotStore.Container.Flush
import SlotStore.Container.Repair

/-!
Opening a file as a container. An empty file gets a header and a zero guard. Any other file must
hold a legal header, a slot table inside the file, and for every recorded region two equal guard
words; capacity and liveness come from the guards.
-/

namespace SlotStore.Container

/-- The state of a recorded region, as its guard words give it. -/
def regionState (file : File) (row : SlotRecord) : Except Damage SlotState :=
  let offset := row.offset.toNat
  let size := row.size.toNat
  let guard := file.intAt (offset - 8)
  let capacity := guard.natAbs
  if file.size < offset + 8 then .error (.regionPastEnd offset file.size)
  else if guard = 0 ∨ capacity % granule ≠ 0 ∨ (offset - 8) % granule ≠ 0 then
    .error (.badLeadingGuard guard offset)
  else if file.size < offset + capacity + 8 then .error (.regionOverruns offset capacity)
  else if file.intAt (offset + capacity) ≠ guard then
    .error (.guardsDiffer offset guard (file.intAt (offset + capacity)))
  else if capacity < size then .error (.sizeOverCapacity offset size capacity)
  else if 0 < guard then .ok (.live ⟨offset, size, capacity⟩)
  else .ok (.free ⟨offset, size, capacity⟩ false)

/-- The states of recorded slots from an index on, given the offsets of the regions before them. A
record that points into the header is an unused slot. -/
def slotStates (file : File) (index : Nat) (seen : List Nat) :
    List SlotRecord → Except Damage (List SlotState)
  | [] => .ok []
  | row :: rest =>
    let offset := row.offset.toNat
    if offset < firstOffset then
      (slotStates file (index + 1) seen rest).map (.unused :: ·)
    else if index = 0 then .error .sentinelTaken
    else if offset ∈ seen then .error (.regionShared offset)
    else
      match regionState file row with
      | .error damage => .error damage
      | .ok state => (slotStates file (index + 1) (offset :: seen) rest).map (state :: ·)

/-- The records of the slot table that a header points at. -/
def recordedRows (file : File) (header : Header) : Except Fault (List SlotRecord) :=
  let count := header.slotCount.toNat
  let offset := header.tableOffset.toNat
  let length := count * SlotRecord.width
  if offset < firstOffset ∨ file.size < offset + length then
    .error (.malformed (.tableOutside count offset file.size))
  else SlotRecord.decodeTable (file.slice offset length) count

/-- The slot that owns the slot table: live, and its region starts where the header says. -/
def tableOwner (slots : SlotTable) (offset : Nat) : Except Damage Nat :=
  match slots.findOffset? offset with
  | none => .error (.tableUnowned offset)
  | some index =>
    if slots[index]?.any SlotState.isLive then .ok index else .error (.tableUnowned offset)

/-- The root that a header names: none, or a slot of the table other than the table's own. -/
def userRoot (slots : SlotTable) (tableIndex root : Nat) : Except Damage (Option Nat) :=
  if root = 0 then .ok none
  else if slots.length ≤ root ∨ root = tableIndex then .error (.rootNotUser root)
  else .ok (some root)

/-- The container that a legal header describes. -/
def ofHeader (file : File) (header : Header) (settings : ContainerSettings) :
    Except Fault Container :=
  let loaded (slots : SlotTable) (tableIndex root : Option Nat) : Container :=
    { file, slots, tableIndex, root
      endOfFile := header.endOfFile.toNat
      tableOffset := header.tableOffset.toNat
      recordedSlots := header.slotCount.toNat
      dirty := false
      appendInFlight := false
      settings }
  if header.slotCount = 0 then
    if header.root ≠ 0 then .error (.malformed .rootWithoutTable)
    else .ok (loaded .fresh none none)
  else
    match recordedRows file header with
    | .error fault => .error fault
    | .ok rows =>
      match slotStates file 0 [] rows with
      | .error damage => .error (.malformed damage)
      | .ok states =>
        let slots := SlotTable.ofStates states
        match tableOwner slots header.tableOffset.toNat with
        | .error damage => .error (.malformed damage)
        | .ok tableIndex =>
          match userRoot slots tableIndex header.root.toNat with
          | .error damage => .error (.malformed damage)
          | .ok root => .ok (loaded slots (some tableIndex) root)

/-- The container stored in a file that is not empty. -/
def load (file : File) (settings : ContainerSettings) : Except Fault Container :=
  if file.size < Header.width then .error (.malformed (.shortFile file.size))
  else
    match Header.decode (file.slice 0 Header.width) with
    | .error fault => .error fault
    | .ok header => ofHeader file header settings

/-- A container without regions over an empty file, not yet flushed. -/
def create (settings : ContainerSettings) : Container where
  file := File.empty.writeAll [(0, Header.fresh.encode), (firstGuard, Bytes.ofInt 0)]
  slots := .fresh
  tableIndex := none
  root := none
  endOfFile := firstOffset
  tableOffset := 0
  recordedSlots := 0
  dirty := true
  appendInFlight := false
  settings

/-- Opens a file, or creates a container in an empty one. The settings are checked first, and an
existing file is validated where they ask for it. Answers also the file as it is afterwards. -/
def openFile (file : File) (settings : ContainerSettings) : Attempt File Container :=
  match settings.check with
  | .error flaw => (.error (.settings flaw), file)
  | .ok () =>
    if file.size = 0 then (.ok (create settings), (create settings).file)
    else
      match load file settings with
      | .error fault => (.error fault, file)
      | .ok container =>
        if settings.validateOnOpen then
          match container.validate with
          | (.error fault, container) => (.error fault, container.leave)
          | (.ok _, container) => (.ok container, container.file)
        else (.ok container, container.file)

end SlotStore.Container
