import SlotStore.File
import SlotStore.Header
import SlotStore.Record
import SlotStore.Settings
import SlotStore.SlotTable

/-!
Containers: one file of guarded regions, the slot table that gives them stable indices, and what
the next flush will write into the header. An operation answers with a result and the container it
leaves behind, whether it succeeded or not.
-/

namespace SlotStore

/-- A result together with the state that the operation leaves behind. -/
abbrev Attempt (State Value : Type) := Except Fault Value × State

structure Container where
  file : File
  slots : SlotTable
  /-- The slot that holds the slot table, once there is one. -/
  tableIndex : Option Nat
  root : Option Nat
  /-- The offset of the next region that is appended. -/
  endOfFile : Nat
  /-- Where the header says that the slot table lies. -/
  tableOffset : Nat
  /-- How many records the header says that the slot table has. -/
  recordedSlots : Nat
  dirty : Bool
  /-- An append that never came to its end bars every further append. -/
  appendInFlight : Bool
  settings : ContainerSettings
deriving DecidableEq

/-- The bookkeeping of a container in numbers. The table's own slot is in no count but the first. -/
structure ContainerStats where
  slotCount : Nat
  liveSlots : Nat
  freeSlots : Nat
  deletableSlots : Nat
  unusedSlots : Nat
  liveBytes : Nat
  freeBytes : Nat
  endOfFile : Nat
  tableSlot : Option Nat
  rootSlot : Option Nat
deriving DecidableEq, Repr

namespace Container

/-- The header that describes the container. -/
def header (container : Container) : Header where
  signature := Header.expectedSignature
  version := Header.expectedVersion
  endOfFile := UInt64.ofNat container.endOfFile
  tableOffset := UInt64.ofNat container.tableOffset
  slotCount := UInt32.ofNat container.recordedSlots
  root := UInt64.ofNat (container.root.getD 0)

/-- The state of an index that users may name: neither the sentinel nor the table's slot, and in
use. -/
def slotOf (container : Container) (index : Nat) : Except Fault SlotState :=
  if index = 0 then .error (.invalidSlot index .sentinel)
  else if container.tableIndex = some index then .error (.invalidSlot index .reservedForTable)
  else
    match container.slots[index]? with
    | none => .error (.invalidSlot index .outOfRange)
    | some .unused => .error (.invalidSlot index .unallocated)
    | some state => .ok state

def liveRegion (container : Container) (index : Nat) : Except Fault Region :=
  match container.slotOf index with
  | .error fault => .error fault
  | .ok (.live region) => .ok region
  | .ok _ => .error (.invalidSlot index .released)

/-- The region of a user slot, live or free. -/
def regionOf (container : Container) (index : Nat) : Except Fault Region :=
  match container.slotOf index with
  | .error fault => .error fault
  | .ok state =>
    match state.region? with
    | some region => .ok region
    | none => .error (.invalidSlot index .unallocated)

def entryCapacity (container : Container) (index : Nat) : Except Fault Nat :=
  (container.regionOf index).map (·.capacity)

def entrySize (container : Container) (index : Nat) : Except Fault Nat :=
  (container.regionOf index).map (·.size)

def entries (container : Container) : List Nat :=
  container.slots.indicesOf fun index state =>
    state.isLive && container.tableIndex != some index

/-- Released slots, whose regions await reuse. -/
def unclaimed (container : Container) : List Nat :=
  container.slots.indicesOf fun _ state => state.isFree

/-- Released slots that are marked for reclamation. -/
def deletable (container : Container) : List Nat :=
  container.slots.indicesOf fun _ state => state.isDeletable

def stats (container : Container) : ContainerStats :=
  let live := (container.entries.filterMap (container.slots[·]?)).filterMap SlotState.region?
  let free := (container.slots.filter SlotState.isFree).filterMap SlotState.region?
  { slotCount := container.slots.length
    liveSlots := live.length
    freeSlots := free.length
    deletableSlots := container.deletable.length
    unusedSlots := container.slots.countP SlotState.isUnused
    liveBytes := (live.map (·.size)).foldl (· + ·) 0
    freeBytes := (free.map (·.capacity)).foldl (· + ·) 0
    endOfFile := container.endOfFile
    tableSlot := container.tableIndex
    rootSlot := container.root }

/-- Records the used size of a slot, cut to its capacity. -/
def setSize (container : Container) (index size : Nat) : Container :=
  match container.slots[index]? with
  | some (.live _) | some (.free _ _) =>
    { container with
      slots := container.slots.modifyRegion index fun region =>
        { region with size := min size region.capacity }
      dirty := true }
  | _ => container

def setState (container : Container) (index : Nat) (state : SlotState) : Container :=
  { container with slots := container.slots.set index state, dirty := true }

/-- Returns a live slot's region to the free ones; a free slot stays as it is. -/
def release (container : Container) (index : Nat) : Attempt Container Unit :=
  match container.slotOf index with
  | .error fault => (.error fault, container)
  | .ok (.live region) => (.ok (), container.setState index (.free region false))
  | .ok _ => (.ok (), container)

/-- Takes a released slot back with the size it had. -/
def claim (container : Container) (index : Nat) : Attempt Container Unit :=
  match container.slotOf index with
  | .error fault => (.error fault, container)
  | .ok (.free region _) => (.ok (), container.setState index (.live region))
  | .ok _ => (.ok (), container)

/-- Frees a slot and marks its region for reclamation. -/
def delete (container : Container) (index : Nat) : Attempt Container Unit :=
  match container.slotOf index with
  | .error fault => (.error fault, container)
  | .ok (.live region) | .ok (.free region _) =>
    (.ok (), container.setState index (.free region true))
  | .ok .unused => (.ok (), container)

def setRoot (container : Container) (index : Nat) : Attempt Container Unit :=
  match container.liveRegion index with
  | .error fault => (.error fault, container)
  | .ok _ => (.ok (), { container with root := some index, dirty := true })

def read (container : Container) (index : Nat) : Except Fault Bytes :=
  match container.liveRegion index with
  | .error fault => .error fault
  | .ok region => (container.file.read region.offset region.size).mapError .file

/-- Lays bytes over a live slot from a position on; its size grows to the end of what was written. -/
def write (container : Container) (index : Nat) (data : Bytes) (pos : Nat) :
    Attempt Container Unit :=
  match container.liveRegion index with
  | .error fault => (.error fault, container)
  | .ok region =>
    if region.capacity < pos + data.length then
      (.error (.overflow (.write data.length pos region.capacity index)), container)
    else
      (.ok (), { container with file := container.file.write (region.offset + pos) data }.setSize
        index (max region.size (pos + data.length)))

end Container

end SlotStore
