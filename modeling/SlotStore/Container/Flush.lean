import SlotStore.Container.Allocation

/-!
Flushing: the slot table moves to a bigger region where its records do not fit, then the records,
the guards of every region and the header are written, in that order.
-/

namespace SlotStore.Container

def tableRegion? (container : Container) : Option Region :=
  match container.tableIndex with
  | none => none
  | some index =>
    match container.slots[index]? with
    | some (.live region) => some region
    | _ => none

/-- Every record fits the slot table's region. -/
def tableFits (container : Container) : Bool :=
  container.tableRegion?.any fun region =>
    decide (container.slots.length * SlotRecord.width ≤ region.capacity)

/-- The container without a slot table; its old region is free. -/
def releaseTable (container : Container) : Container :=
  match container.tableIndex, container.tableRegion? with
  | some index, some region =>
    { container with slots := container.slots.set index (.free region false), tableIndex := none }
  | _, _ => { container with tableIndex := none }

/-- One move of the slot table into a region for as many records as the settings ask for. -/
def moveTable (container : Container) : Attempt Container Unit :=
  let released := container.releaseTable
  let records := released.settings.tableRecords released.slots.length
  match released.newEntry (records * SlotRecord.width) with
  | (.error fault, container) => (.error fault, container)
  | (.ok index, container) => (.ok (), { container with tableIndex := some index })

/-- Moves the slot table until every record fits, at most `budget` times. A move may itself add a
slot, so the room that is needed can grow on the way. -/
def settleTable : (budget : Nat) → Container → Attempt Container Unit
  | 0, container => (.error (.overflow (.tableGrowth container.slots.length)), container)
  | budget + 1, container =>
    if container.tableFits then (.ok (), container)
    else
      match container.moveTable with
      | (.error fault, container) => (.error fault, container)
      | (.ok (), container) => settleTable budget container

def ensureTable (container : Container) : Attempt Container Unit :=
  settleTable (SlotTable.indexLimit + 2) container

def records (container : Container) : List SlotRecord :=
  container.slots.map fun state =>
    match state.region? with
    | some region => ⟨UInt64.ofNat region.offset, UInt64.ofNat region.size⟩
    | none => ⟨0, 0⟩

/-- The write of the slot records into the table's region. -/
def recordWrite (container : Container) : Nat × Bytes :=
  (container.tableOffset, container.records.flatMap SlotRecord.encode)

/-- The writes of both guards of every region, in index order. -/
def guardWrites (container : Container) : List (Nat × Bytes) :=
  container.slots.flatMap fun state =>
    match state.region?, state.guardWord with
    | some region, some guard =>
      [(region.leadingGuard, Bytes.ofInt guard), (region.trailingGuard, Bytes.ofInt guard)]
    | _, _ => []

def headerWrite (container : Container) : Nat × Bytes := (0, container.header.encode)

/-- All writes of a flush in order: records, guards, header. -/
def flushWrites (container : Container) : List (Nat × Bytes) :=
  container.recordWrite :: container.guardWrites ++ [container.headerWrite]

/-- The container as the next header describes it, with every record in the table's region. -/
def sealTable (container : Container) (index : Nat) (region : Region) : Container :=
  let count := container.slots.length
  { container.setSize index (count * SlotRecord.width) with
    tableOffset := region.offset, recordedSlots := count }

/-- Stores slot table, guards and header. Nothing happens where nothing changed. -/
def flush (container : Container) : Attempt Container Unit :=
  if container.dirty = false then (.ok (), container)
  else
    match container.ensureTable with
    | (.error fault, container) => (.error fault, container)
    | (.ok (), container) =>
      if SlotTable.indexLimit ≤ container.slots.length then
        (.error (.overflow (.slotRecords container.slots.length)), container)
      else
        match container.tableIndex, container.tableRegion? with
        | some index, some region =>
          let sealed := container.sealTable index region
          (.ok (), { sealed with file := sealed.file.writeAll sealed.flushWrites, dirty := false })
        | index, _ => (.error (.malformed (.tableNotLive (index.getD 0))), container)

/-- Gives a container up. What is unsaved is flushed, whatever comes of it; the file stays. -/
def leave (container : Container) : File := container.flush.2.file

/-- Flushes and gives the container up; after a failure the flush is tried once more. -/
def close (container : Container) : Attempt File Unit :=
  let (result, container) := container.flush
  (result, container.leave)

end SlotStore.Container
