import SlotStore.Scan
import SlotStore.SlotTable

/-!
Reconciliation of a slot table with a scan. The scan is the truth: a slot whose region was not
found becomes unused, a slot whose capacity differs takes the scanned one, and a region that no
slot points at is recovered as a free slot behind the table.
-/

namespace SlotStore

/-- What a reconciliation found and changed. -/
structure RepairReport where
  regionsScanned : Nat
  liveRegions : Nat
  freeRegions : Nat
  demoted : List Nat
  recovered : List Nat
  capacityFixed : List Nat
  endOfFile : Nat
deriving DecidableEq, Repr

/-- Nothing in the table had to change. -/
def RepairReport.isClean (report : RepairReport) : Bool :=
  report.demoted.isEmpty && report.recovered.isEmpty && report.capacityFixed.isEmpty

/-- One region per offset; of several with one offset the last counts. -/
def distinctRegions : List ScannedRegion → List ScannedRegion
  | [] => []
  | region :: rest =>
    if rest.any (·.offset == region.offset) then distinctRegions rest
    else region :: distinctRegions rest

/-- The region with the scanned capacity; its size is cut only where the capacity changed. -/
def Region.adopt (region : Region) (scanned : ScannedRegion) : Region :=
  if region.capacity = scanned.capacity then region
  else { region with capacity := scanned.capacity, size := min region.size scanned.capacity }

/-- The slots that a pass over the table has treated so far, and what it found. -/
structure SettledSlots where
  states : List SlotState
  claimed : List Nat
  demoted : List Nat
  capacityFixed : List Nat

/-- Treats the slots from an index on, given the offsets that slots before it claimed. The states
are complete also when two slots claim one region; then all slots from the second on are as before. -/
def settle (regions : List ScannedRegion) (index : Nat) (claimed : List Nat) :
    List SlotState → Option Damage × SettledSlots
  | [] => (none, ⟨[], claimed, [], []⟩)
  | state :: rest =>
    match state.region? with
    | none =>
      let (stopped, tail) := settle regions (index + 1) claimed rest
      (stopped, { tail with states := state :: tail.states })
    | some region =>
      match regions.find? (·.offset == region.offset) with
      | none =>
        let (stopped, tail) := settle regions (index + 1) claimed rest
        (stopped, { tail with
          states := .unused :: tail.states, demoted := index :: tail.demoted })
      | some scanned =>
        if region.offset ∈ claimed then
          (some (.regionShared region.offset), ⟨state :: rest, claimed, [], []⟩)
        else
          let (stopped, tail) := settle regions (index + 1) (region.offset :: claimed) rest
          (stopped, { tail with
            states := state.mapRegion (·.adopt scanned) :: tail.states
            capacityFixed :=
              if region.capacity = scanned.capacity then tail.capacityFixed
              else index :: tail.capacityFixed })

/-- Appends a free slot for each region, filled to its capacity; stops when indices run out. -/
def recoverRegions (table : SlotTable) : List ScannedRegion → Except Fault (List Nat) × SlotTable
  | [] => (.ok [], table)
  | region :: rest =>
    match table.push (.free ⟨region.offset, region.capacity, region.capacity⟩ false) with
    | .error fault => (.error fault, table)
    | .ok (index, grown) =>
      match recoverRegions grown rest with
      | (.error fault, final) => (.error fault, final)
      | (.ok indices, final) => (.ok (index :: indices), final)

/-- The scanned regions that no slot claimed, in offset order. -/
def orphans (regions : List ScannedRegion) (claimed : List Nat) : List ScannedRegion :=
  (regions.filter fun region => !claimed.contains region.offset).mergeSort
    fun left right => left.offset ≤ right.offset

/-- Brings a table in line with a scan. The table is returned also after a failure, changed as far
as the work had come. -/
def reconcile (table : SlotTable) (scan : Scan) : Except Fault RepairReport × SlotTable :=
  if (table[0]?.any SlotState.isUnused) = false then (.error (.malformed .sentinelTaken), table)
  else
    let regions := distinctRegions scan.regions
    match settle regions 0 [] table with
    | (some damage, settled) => (.error (.malformed damage), settled.states)
    | (none, settled) =>
      match recoverRegions settled.states (orphans regions settled.claimed) with
      | (.error fault, final) => (.error fault, final)
      | (.ok recovered, final) =>
        (.ok {
          regionsScanned := scan.regions.length
          liveRegions := scan.regions.countP (·.live)
          freeRegions := scan.regions.countP fun region => !region.live
          demoted := settled.demoted
          recovered
          capacityFixed := settled.capacityFixed
          endOfFile := scan.nextOffset }, final)

end SlotStore
