import SlotStore.File
import SlotStore.Region

/-!
The guard walk: the regions of a file read from its guard words alone, from the first guard to a
zero word or to the end of the file. A region is a guard word, as many bytes as its magnitude says,
and the same word again.
-/

namespace SlotStore

/-- A region found by the walk; its guards were positive when it was last written as live. -/
structure ScannedRegion where
  offset : Nat
  capacity : Nat
  live : Bool
deriving DecidableEq, Repr, Inhabited

/-- The regions in file order and the position where the walk stopped. -/
structure Scan where
  regions : List ScannedRegion
  stop : Nat
deriving DecidableEq, Repr

namespace Scan

/-- The offset that the next appended region would get. -/
def nextOffset (scan : Scan) : Nat := scan.stop + 8

def walk (file : File) (pos : Nat) : Except Damage (List ScannedRegion × Nat) :=
  if _ : pos + 8 ≤ file.size then
    let guard := file.intAt pos
    let offset := pos + 8
    let capacity := guard.natAbs
    if guard = 0 then .ok ([], pos)
    else if capacity % granule ≠ 0 then .error (.misalignedLength offset capacity)
    else if file.size < offset + capacity + 8 then
      .error (.walkOverruns offset capacity file.size)
    else if file.intAt (offset + capacity) ≠ guard then
      .error (.guardsDiffer offset guard (file.intAt (offset + capacity)))
    else
      match walk file (offset + capacity + 8) with
      | .error damage => .error damage
      | .ok (regions, stop) => .ok (⟨offset, capacity, decide (0 < guard)⟩ :: regions, stop)
  else .ok ([], pos)
termination_by file.size - pos

def ofFile (file : File) : Except Damage Scan :=
  (walk file firstGuard).map fun found => ⟨found.1, found.2⟩

end Scan

end SlotStore
