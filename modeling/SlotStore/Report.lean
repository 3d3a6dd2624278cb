import SlotStore.Archive
import SlotStore.Text.Json

/-!
What is reported about containers and archives, as JSON values and as lines of text.
-/

namespace SlotStore

def slotJson : Option Nat → JsonValue
  | some slot => .natural slot
  | none => .null

def slotsJson (slots : List Nat) : JsonValue := .array (slots.map .natural)

def ContainerStats.json (stats : ContainerStats) : JsonValue := .object [
  ("slot_count", .natural stats.slotCount),
  ("live_slots", .natural stats.liveSlots),
  ("free_slots", .natural stats.freeSlots),
  ("deletable_slots", .natural stats.deletableSlots),
  ("unused_slots", .natural stats.unusedSlots),
  ("live_bytes", .natural stats.liveBytes),
  ("free_bytes", .natural stats.freeBytes),
  ("end_of_file", .natural stats.endOfFile),
  ("table_slot", slotJson stats.tableSlot),
  ("root_slot", slotJson stats.rootSlot)]

/-- The numbers of a container in lines; a root is named only if there is one. -/
def ContainerStats.lines (stats : ContainerStats) (name : String) : String :=
  String.join ([
    s!"File:         {name}\n",
    s!"End of file:  {hexNumber stats.endOfFile}\n",
    s!"Slots:        {stats.slotCount}\n",
    s!"  live:       {stats.liveSlots} ({stats.liveBytes} bytes)\n",
    s!"  free:       {stats.freeSlots} ({stats.freeBytes} bytes)\n",
    s!"  deletable:  {stats.deletableSlots}\n",
    s!"  unused:     {stats.unusedSlots}\n"] ++
    stats.rootSlot.toList.map fun root => s!"Root slot:    {root}\n")

def ArchiveStats.json (stats : ArchiveStats) : JsonValue := .object [
  ("entries", .natural stats.entries),
  ("compressed_entries", .natural stats.compressedEntries),
  ("stored_bytes", .natural stats.storedBytes),
  ("uncompressed_bytes", .natural stats.uncompressedBytes),
  ("root_slot", .natural stats.rootSlot),
  ("header_table_slot", slotJson stats.headerTableSlot),
  ("container", stats.container.json)]

def RepairReport.entries (report : RepairReport) : List (String × JsonValue) := [
  ("regions_scanned", .natural report.regionsScanned),
  ("live_regions", .natural report.liveRegions),
  ("free_regions", .natural report.freeRegions),
  ("slots_demoted", slotsJson report.demoted),
  ("slots_recovered", slotsJson report.recovered),
  ("capacity_fixed", slotsJson report.capacityFixed),
  ("end_of_file", .natural report.endOfFile)]

def ArchiveEntry.json (entry : ArchiveEntry) : JsonValue := .object [
  ("hash", .text entry.key.text),
  ("slot_index", .natural entry.slot),
  ("uncompressed_size", .natural entry.uncompressedSize)]

/-- A number behind as many blanks as fill ten places. -/
def tenPlaces (number : Nat) : String :=
  let digits := toString number
  String.ofList (List.replicate (10 - digits.length) ' ') ++ digits

def ArchiveEntry.line (entry : ArchiveEntry) : String :=
  s!"{entry.key.text}  {tenPlaces entry.uncompressedSize}  slot {entry.slot}\n"

end SlotStore
