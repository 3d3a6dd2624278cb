import SlotStore.Fault
import SlotStore.Region

/-!
The slot table: states under stable indices. Index 0 is a sentinel that holds no region. Which
slots can be reused, recycled or reclaimed is read off the states themselves.
-/

namespace SlotStore

/-- The states of all slots, the sentinel first. -/
abbrev SlotTable := List SlotState

namespace SlotTable

/-- Slot indices are words of 32 bits. -/
def indexLimit : Nat := 0x100000000

/-- The table of a container without slots. -/
def fresh : SlotTable := [.unused]

/-- The table of these states; an empty one still gets a sentinel. -/
def ofStates (states : List SlotState) : SlotTable :=
  if states.isEmpty then fresh else states

/-- The sentinel alone counts as no slot. -/
def hasNoSlots (table : SlotTable) : Bool := decide (table.length ≤ 1)

/-- The table with one more slot, and its index. -/
def push (table : SlotTable) (state : SlotState) : Except Fault (Nat × SlotTable) :=
  if table.length < indexLimit then .ok (table.length, table ++ [state])
  else .error (.overflow .slotIndices)

/-- The lowest unused index behind the sentinel. -/
def unusedIndex? (table : SlotTable) : Option Nat :=
  ((table.drop 1).findIdx? SlotState.isUnused).map (· + 1)

/-- An index without a region: the lowest unused one, else a new one at the end. -/
def acquire (table : SlotTable) : Except Fault (Nat × SlotTable) :=
  match table.unusedIndex? with
  | some index => .ok (index, table)
  | none => table.push .unused

/-- The free slots with at least this capacity, in index order, each with its capacity. -/
def fitting (table : SlotTable) (least : Nat) : List (Nat × Nat) :=
  table.zipIdx.filterMap fun
    | (.free region _, index) =>
      if least ≤ region.capacity then some (index, region.capacity) else none
    | _ => none

/-- The candidate with the smallest capacity; the first of several. -/
def tightest : List (Nat × Nat) → Option (Nat × Nat)
  | [] => none
  | head :: rest =>
    match tightest rest with
    | none => some head
    | some best => if best.2 < head.2 then some best else some head

/-- Best fit: of the free slots with room, the lowest index of the smallest capacity. -/
def bestFit (table : SlotTable) (least : Nat) : Option Nat :=
  (tightest (table.fitting least)).map Prod.fst

/-- The lowest index whose region starts at an offset. -/
def findOffset? (table : SlotTable) (offset : Nat) : Option Nat :=
  table.findIdx? fun state => state.region?.any (·.offset == offset)

/-- The table with the region of one slot changed. -/
def modifyRegion (table : SlotTable) (index : Nat) (change : Region → Region) : SlotTable :=
  table.modify index (SlotState.mapRegion change)

/-- The indices whose state satisfies a test, in order. -/
def indicesOf (table : SlotTable) (test : Nat → SlotState → Bool) : List Nat :=
  table.zipIdx.filterMap fun (state, index) => if test index state then some index else none

end SlotTable

end SlotStore
