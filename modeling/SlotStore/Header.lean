import SlotStore.Fault
import SlotStore.Region

/-!
The header at the start of a container: identity, end of file, where the slot table lies, and the
root. It takes 560 bytes, 512 of them reserved.
-/

namespace SlotStore

structure Header where
  signature : UInt32
  version : UInt32
  endOfFile : UInt64
  tableOffset : UInt64
  slotCount : UInt32
  root : UInt64
deriving DecidableEq, Repr

namespace Header

/-- The signature `PAKS`. -/
def expectedSignature : UInt32 := 0x534b4150

def expectedVersion : UInt32 := 1

def width : Nat := 560

/-- The header of a container without regions. -/
def fresh : Header := ⟨expectedSignature, expectedVersion, 568, 0, 0, 0⟩

/-- A header is legal when signature and version are known and the end lies behind it; the first
rule that is broken is reported. -/
def check (header : Header) : Except Fault Unit :=
  if header.signature ≠ expectedSignature then
    .error (.mismatch .signature expectedSignature header.signature)
  else if header.version ≠ expectedVersion then
    .error (.mismatch .version expectedVersion header.version)
  else if header.endOfFile.toNat < firstOffset then
    .error (.malformed (.endInsideHeader header.endOfFile.toNat))
  else .ok ()

def encode (header : Header) : Bytes :=
  Bytes.ofWord32 header.signature ++ Bytes.ofWord32 header.version ++ Bytes.zeros 512 ++
    Bytes.ofWord64 header.endOfFile ++ Bytes.zeros 8 ++ Bytes.ofWord64 header.tableOffset ++
    Bytes.ofWord32 header.slotCount ++ Bytes.zeros 4 ++ Bytes.ofWord64 header.root

/-- The fields at their positions, whatever they hold. -/
def ofFields (bytes : Bytes) : Header where
  signature := bytes.word32At 0
  version := bytes.word32At 4
  endOfFile := bytes.word64At 520
  tableOffset := bytes.word64At 536
  slotCount := bytes.word32At 544
  root := bytes.word64At 552

/-- The legal header at the start of a byte string. -/
def decode (bytes : Bytes) : Except Fault Header :=
  if bytes.length < width then .error (.malformed (.shortHeader bytes.length))
  else (ofFields bytes).check.map fun _ => ofFields bytes

end Header

end SlotStore
