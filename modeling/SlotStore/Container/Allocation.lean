import SlotStore.Container

/-!
Allocation: best fit over the released regions first, otherwise a new region at the end of the
file. The terminator and the trailing guard of a new region are written before its leading guard,
so a walk never meets a leading guard without its partner.
-/

namespace SlotStore

/-- The least multiple of the granule that holds a request, if a signed word can. -/
def alignedCapacity (requested : Nat) : Except Fault Nat :=
  let capacity := (max requested 1 + (granule - 1)) / granule * granule
  if max requested 1 + (granule - 1) < 0x10000000000000000 ∧ capacity < 0x8000000000000000 then .ok capacity
  else .error (.overflow (.capacity requested))

namespace Container

/-- The writes that put a region at the end of the file, in order: the terminator behind it, its
trailing guard, its leading guard. -/
def appendWrites (endOfFile capacity : Nat) : List (Nat × Bytes) :=
  [(endOfFile + capacity + 8, Bytes.ofInt 0),
    (endOfFile + capacity, Bytes.ofInt capacity),
    (endOfFile - 8, Bytes.ofInt capacity)]

/-- Appends a region of a capacity, without a slot. -/
def appendRegion (container : Container) (capacity : Nat) : Attempt Container Region :=
  let endOfFile := container.endOfFile
  if 0x10000000000000000 ≤ endOfFile + capacity + 16 then
    (.error (.overflow (.growth endOfFile)), container)
  else if 0x8000000000000000 ≤ capacity then (.error (.overflow (.guard capacity)), container)
  else
    (.ok ⟨endOfFile, 0, capacity⟩, { container with
      file := container.file.writeAll (appendWrites endOfFile capacity)
      endOfFile := endOfFile + capacity + 16 })

/-- Gives a region the lowest unused index, or a new one. -/
def placeRegion (container : Container) (region : Region) : Attempt Container Nat :=
  match container.slots.acquire with
  | .error fault => (.error fault, container)
  | .ok (index, slots) =>
    (.ok index, { container with slots := slots.set index (.live region), dirty := true })

def reuse (container : Container) (index : Nat) : Container :=
  match container.slots[index]? with
  | some (.free region _) => container.setState index (.live { region with size := 0 })
  | _ => container

/-- A live, empty slot with room for a number of bytes. -/
def newEntry (container : Container) (size : Nat) : Attempt Container Nat :=
  match alignedCapacity size with
  | .error fault => (.error fault, container)
  | .ok capacity =>
    match container.slots.bestFit capacity with
    | some index => (.ok index, container.reuse index)
    | none =>
      match container.appendRegion capacity with
      | (.error fault, container) => (.error fault, container)
      | (.ok region, container) => container.placeRegion region

end Container

end SlotStore
