import SlotStore.Container

/-!
Cursors into a slot. A reader is bounded by the slot's size, a writer by its capacity; closing a
writer records the furthest position that it stood at after a write as the slot's size.
-/

namespace SlotStore

/-- Where to seek to: from the start, from the end, or from where the cursor stands. -/
inductive SeekTarget where
  | fromStart (position : Nat)
  | fromEnd (delta : Int)
  | fromHere (delta : Int)
deriving DecidableEq, Repr

/-- The position of a target, if an unsigned word can hold it. -/
def SeekTarget.resolve (target : SeekTarget) (bound here : Nat) : Except FileFailure Nat :=
  let position : Int := match target with
    | .fromStart position => position
    | .fromEnd delta => bound + delta
    | .fromHere delta => here + delta
  if 0 ≤ position ∧ position < 0x10000000000000000 then .ok position.toNat else .error .seekOutOfRange

/-- A cursor over the bytes in use of a slot. -/
structure SlotReader where
  region : Region
  pos : Nat

namespace SlotReader

/-- At most `count` bytes, none at the end. -/
def read (reader : SlotReader) (file : File) (count : Nat) :
    Except FileFailure Bytes × SlotReader :=
  let taken := min (reader.region.size - reader.pos) count
  if taken = 0 then (.ok [], reader)
  else
    match file.read (reader.region.offset + reader.pos) taken with
    | .error failure => (.error failure, reader)
    | .ok bytes => (.ok bytes, { reader with pos := reader.pos + taken })

/-- All of `count` bytes; where fewer are left they are read all the same. -/
def readExact (reader : SlotReader) (file : File) (count : Nat) :
    Except FileFailure Bytes × SlotReader :=
  match reader.read file count with
  | (.error failure, reader) => (.error failure, reader)
  | (.ok bytes, reader) =>
    if bytes.length < count then (.error .unexpectedEnd, reader) else (.ok bytes, reader)

/-- The bytes up to the end, read in stretches: the first has 32 bytes and each further one as many
as were read before it. `budget` bounds the number of stretches. -/
def readStretches (reader : SlotReader) (file : File) (soFar : Bytes) :
    (budget : Nat) → Except FileFailure Bytes × SlotReader
  | 0 => (.ok soFar, reader)
  | budget + 1 =>
    match reader.read file (max 32 soFar.length) with
    | (.error failure, reader) => (.error failure, reader)
    | (.ok bytes, moved) =>
      if bytes.isEmpty then (.ok soFar, moved)
      else readStretches moved file (soFar ++ bytes) budget

def readAll (reader : SlotReader) (file : File) : Except FileFailure Bytes × SlotReader :=
  reader.readStretches file [] (reader.region.size + 1)

def seek (reader : SlotReader) (target : SeekTarget) : Except FileFailure Nat × SlotReader :=
  match target.resolve reader.region.size reader.pos with
  | .error failure => (.error failure, reader)
  | .ok position => (.ok position, { reader with pos := position })

end SlotReader

structure SlotWriter where
  index : Nat
  region : Region
  pos : Nat
  highWater : Nat

namespace SlotWriter

/-- Stores as many bytes as fit; where none of several fits the slot is full. A write of nothing stores
nothing and is never refused, also at a position of the file from `2 ^ 63` on, where a file system would
refuse to seek and the view would be marked as failed. -/
def write (writer : SlotWriter) (file : File) (data : Bytes) :
    Except FileFailure Nat × SlotWriter × File :=
  let room := writer.region.capacity - writer.pos
  let taken := min room data.length
  if taken = 0 ∧ data ≠ [] then
    (.error (.slotFull writer.index writer.region.capacity), writer, file)
  else
    let pos := writer.pos + taken
    (.ok taken, { writer with pos := pos, highWater := max writer.highWater pos },
      file.write (writer.region.offset + writer.pos) (data.take taken))

/-- Stores all bytes; where they do not fit, the part that does is stored all the same. -/
def writeAll (writer : SlotWriter) (file : File) (data : Bytes) :
    Except FileFailure Unit × SlotWriter × File :=
  if data.isEmpty then (.ok (), writer, file)
  else
    match writer.write file data with
    | (.error failure, moved) => (.error failure, moved)
    | (.ok taken, moved) =>
      if taken < data.length then
        (.error (.slotFull writer.index writer.region.capacity), moved)
      else (.ok (), moved)

def seek (writer : SlotWriter) (target : SeekTarget) : Except FileFailure Nat × SlotWriter :=
  match target.resolve writer.highWater writer.pos with
  | .error failure => (.error failure, writer)
  | .ok position => (.ok position, { writer with pos := position })

end SlotWriter

namespace Container

def reader (container : Container) (index : Nat) : Except Fault SlotReader :=
  (container.liveRegion index).map fun region => ⟨region, 0⟩

def writer (container : Container) (index : Nat) : Except Fault SlotWriter :=
  (container.liveRegion index).map fun region => ⟨index, region, 0, 0⟩

/-- The container after a writer is closed, over the file that the writer left. -/
def closeWriter (container : Container) (writer : SlotWriter) (file : File) : Container :=
  { container with file := file }.setSize writer.index writer.highWater

def fill (container : Container) (index : Nat) (data : Bytes) : Attempt Container Unit :=
  match container.writer index with
  | .error fault => (.error fault, container)
  | .ok writer =>
    match writer.writeAll container.file data with
    | (.error failure, writer, file) =>
      (.error (.file failure), container.closeWriter writer file)
    | (.ok (), writer, file) => (.ok (), container.closeWriter writer file)

end Container

end SlotStore
