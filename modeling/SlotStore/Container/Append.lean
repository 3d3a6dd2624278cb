import SlotStore.Container.Allocation

/-!
Streamed appends. A producer's bytes gather in a buffer and go to the file behind its end whenever
the buffer is full or flushed; guards and slot follow when the producer has come to its end. An
append that fails leaves no slot, and the word below the end of the file is zeroed again.
-/

namespace SlotStore

inductive AppendAct where
  | write (data : Bytes)
  | flush
deriving DecidableEq, Repr

/-- How a producer ends. One that is aborted leaves the append in flight. -/
inductive AppendEnd where
  | finish
  | fail (failure : FileFailure)
  | abort
deriving DecidableEq, Repr

/-- Bytes on their way to the end of the file. -/
structure AppendStream where
  start : Nat
  flushed : Nat
  buffer : Bytes

namespace AppendStream

/-- A buffer of this length is written out. -/
def bufferSize : Nat := 65536

def written (stream : AppendStream) : Nat := stream.flushed + stream.buffer.length

def flush (stream : AppendStream) (file : File) : AppendStream × File :=
  ({ stream with flushed := stream.written, buffer := [] },
    file.write (stream.start + stream.flushed) stream.buffer)

/-- Accepts bytes; a full buffer is written out as a whole. -/
def write (stream : AppendStream) (file : File) (data : Bytes) : AppendStream × File :=
  let grown := { stream with buffer := stream.buffer ++ data }
  if bufferSize ≤ grown.buffer.length then grown.flush file else (grown, file)

def perform (stream : AppendStream) (file : File) : AppendAct → AppendStream × File
  | .write data => stream.write file data
  | .flush => stream.flush file

/-- Carries out a producer's acts and notes after each how many bytes were accepted. -/
def performAll (stream : AppendStream) (file : File) :
    List AppendAct → List Nat × AppendStream × File
  | [] => ([], stream, file)
  | act :: rest =>
    let (moved, file) := stream.perform file act
    let (notes, final) := performAll moved file rest
    (moved.written :: notes, final)

end AppendStream

inductive AppendOutcome where
  | slot (index : Nat)
  | failed (fault : Fault)
  | aborted
deriving DecidableEq

namespace Container

/-- Zeroes the word below the end of the file, so that a walk stops before what was abandoned. -/
def sealTail (container : Container) : Container :=
  { container with file := container.file.writeInt (container.endOfFile - 8) 0 }

/-- Puts guards around bytes that were streamed behind the end of the file, and gives them a slot. -/
def adoptStream (container : Container) (written : Nat) : Attempt Container Nat :=
  match alignedCapacity written with
  | .error fault => (.error fault, container)
  | .ok capacity =>
    match container.appendRegion capacity with
    | (.error fault, container) => (.error fault, container)
    | (.ok region, container) => container.placeRegion { region with size := written }

/-- Streams a producer's bytes into a new slot that is sized to them. Answers also how many bytes
were accepted after each act. -/
def appendEntry (container : Container) (acts : List AppendAct) (ending : AppendEnd) :
    (List Nat × AppendOutcome) × Container :=
  if container.appendInFlight then (([], .failed .appendInFlight), container)
  else
    let (notes, stream, file) :=
      AppendStream.performAll ⟨container.endOfFile, 0, []⟩ container.file acts
    match ending with
    | .abort => ((notes, .aborted), { container with file := file, appendInFlight := true })
    | .fail failure =>
      ((notes, .failed (.file failure)), { container with file := file }.sealTail)
    | .finish =>
      let (finished, file) := stream.flush file
      match { container with file := file }.adoptStream finished.written with
      | (.error fault, container) => ((notes, .failed fault), container)
      | (.ok index, container) => ((notes, .slot index), container)

end Container

end SlotStore
