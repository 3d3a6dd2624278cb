import SlotStore.Fault

/-!
Records of fixed width, little-endian, in field order: the rows of the slot table, the anchor in
an archive's root slot, and the rows of its header table. Decoding ignores what follows a record.
-/

namespace SlotStore

/-- Refuses a byte string that is shorter than what it should hold. -/
def requireLength (noun : RecordNoun) (needed : Nat) (bytes : Bytes) : Except Fault Unit :=
  if bytes.length < needed then
    .error (.malformed (.shortRecord noun needed bytes.length))
  else .ok ()

/-- A row of the slot table. The capacity is not stored here; the guard words hold it. -/
structure SlotRecord where
  offset : UInt64
  size : UInt64
deriving DecidableEq, Repr, Inhabited

namespace SlotRecord

def width : Nat := 16

def encode (row : SlotRecord) : Bytes := Bytes.ofWord64 row.offset ++ Bytes.ofWord64 row.size

def ofFields (bytes : Bytes) : SlotRecord := ⟨bytes.word64At 0, bytes.word64At 8⟩

def decode (bytes : Bytes) : Except Fault SlotRecord :=
  (requireLength .slotRecord width bytes).map fun _ => ofFields bytes

/-- The first `count` rows of a packed table. -/
def rows : (count : Nat) → Bytes → List SlotRecord
  | 0, _ => []
  | count + 1, bytes => ofFields bytes :: rows count (bytes.drop width)

def decodeTable (bytes : Bytes) (count : Nat) : Except Fault (List SlotRecord) :=
  if 0x10000000000000000 ≤ count * width then .error (.overflow (.slotTable count))
  else (requireLength .slotTable (count * width) bytes).map fun _ => rows count bytes

end SlotRecord

structure RootRecord where
  signature : UInt32
  version : UInt32
  entryCount : UInt32
  headerTable : UInt32
deriving DecidableEq, Repr

namespace RootRecord

def width : Nat := 16

/-- The signature `AARC`. -/
def archiveSignature : UInt32 := 0x43524141

def archiveVersion : UInt32 := 1

/-- The anchor of an archive with this many entries and its header table in this slot. -/
def ofArchive (entryCount headerTable : Nat) : RootRecord :=
  ⟨archiveSignature, archiveVersion, UInt32.ofNat entryCount, UInt32.ofNat headerTable⟩

def encode (row : RootRecord) : Bytes :=
  Bytes.ofWord32 row.signature ++ Bytes.ofWord32 row.version ++
    Bytes.ofWord32 row.entryCount ++ Bytes.ofWord32 row.headerTable

def ofFields (bytes : Bytes) : RootRecord :=
  ⟨bytes.word32At 0, bytes.word32At 4, bytes.word32At 8, bytes.word32At 12⟩

def decode (bytes : Bytes) : Except Fault RootRecord :=
  (requireLength .rootRecord width bytes).map fun _ => ofFields bytes

/-- Refuses another signature, then another version. -/
def expect (row : RootRecord) (signature version : UInt32) : Except Fault Unit :=
  if row.signature ≠ signature then .error (.mismatch .rootSignature signature row.signature)
  else if row.version ≠ version then .error (.mismatch .rootVersion version row.version)
  else .ok ()

end RootRecord

/-- A row of the header table: the slot of a blob, its key and its length before compression. -/
structure HashRecord where
  slot : UInt32
  key : ContentKey
  uncompressedSize : UInt64
deriving DecidableEq

namespace HashRecord

def width : Nat := 32

def encode (row : HashRecord) : Bytes :=
  Bytes.ofWord32 row.slot ++ row.key.bytes ++ Bytes.ofWord64 row.uncompressedSize

def decode (bytes : Bytes) : Except Fault HashRecord :=
  if enough : 32 ≤ bytes.length then
    .ok ⟨bytes.word32At 0, .ofTake (bytes.drop 4) (by simp; omega), bytes.word64At 24⟩
  else .error (.malformed (.shortRecord .hashRecord width bytes.length))

end HashRecord

end SlotStore
