import SlotStore.File

/-!
Handles: a file that is opened on first use and closed again when it was not used for a while. A
pin keeps the handle from being closed for idleness. Time is counted in milliseconds.
-/

namespace SlotStore

structure FileHandle where
  /-- The bytes of the file, once there is one. -/
  file : Option File
  /-- How long the handle may be idle; none keeps it open. -/
  timeout : Option Nat
  isOpen : Bool := false
  /-- How often the file was opened. -/
  opens : Nat := 0
  pins : Nat := 0
  /-- Time since the last use. -/
  idle : Nat := 0

namespace FileHandle

/-- The handle after it was opened for use; a file that is not there is made. -/
def ready (handle : FileHandle) : FileHandle :=
  { handle with
    file := some (handle.file.getD .empty)
    isOpen := true
    opens := if handle.isOpen then handle.opens else handle.opens + 1
    idle := 0 }

/-- The bytes that a use of the handle sees. -/
def content (handle : FileHandle) : File := handle.file.getD .empty

def write (handle : FileHandle) (pos : Nat) (data : Bytes) : FileHandle :=
  let ready := handle.ready
  { ready with file := some (ready.content.write pos data) }

/-- Reads all of `count` bytes at a position. -/
def read (handle : FileHandle) (pos count : Nat) : Except FileFailure Bytes × FileHandle :=
  (handle.content.read pos count, handle.ready)

/-- Reads up to `count` bytes at a position, fewer at the end of the file. -/
def readSome (handle : FileHandle) (pos count : Nat) : Bytes × FileHandle :=
  (handle.content.slice pos count, handle.ready)

/-- The handle has a timeout, is not pinned, and was idle long enough. -/
def isExpired (handle : FileHandle) : Bool :=
  handle.timeout.any fun timeout => handle.pins == 0 && decide (timeout ≤ handle.idle)

/-- Closes an open handle that is expired, and answers whether it did. -/
def closeIfIdle (handle : FileHandle) : Bool × FileHandle :=
  if handle.isOpen && handle.isExpired then (true, { handle with isOpen := false })
  else (false, handle)

def release (handle : FileHandle) : FileHandle := { handle with isOpen := false }

def pin (handle : FileHandle) : FileHandle := { handle with pins := handle.pins + 1 }

/-- Takes a pin away, which counts as a use. -/
def unpin (handle : FileHandle) : FileHandle :=
  { handle with pins := handle.pins - 1, idle := 0 }

/-- The handle after some time without use. -/
def pass (handle : FileHandle) (time : Nat) : FileHandle :=
  { handle with idle := handle.idle + time }.closeIfIdle.2

end FileHandle

end SlotStore
