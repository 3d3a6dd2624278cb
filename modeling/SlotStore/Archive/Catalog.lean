import SlotStore.Record

/-!
The catalog of an archive: one entry for each key, in key order. Its stored form is one record for
each entry; reading refuses a key that occurs twice.
-/

namespace SlotStore

/-- A stored blob: its key, its slot, and its length before compression. -/
structure ArchiveEntry where
  key : ContentKey
  slot : Nat
  uncompressedSize : Nat
deriving DecidableEq

namespace ArchiveEntry

def record (entry : ArchiveEntry) : HashRecord :=
  ⟨UInt32.ofNat entry.slot, entry.key, UInt64.ofNat entry.uncompressedSize⟩

def ofRecord (row : HashRecord) : ArchiveEntry :=
  ⟨row.key, row.slot.toNat, row.uncompressedSize.toNat⟩

end ArchiveEntry

abbrev Catalog := List ArchiveEntry

namespace Catalog

def lookup? (catalog : Catalog) (key : ContentKey) : Option ArchiveEntry :=
  catalog.find? fun entry => decide (entry.key = key)

def has (catalog : Catalog) (key : ContentKey) : Bool := (catalog.lookup? key).isSome

def keys (catalog : Catalog) : List ContentKey := catalog.map (·.key)

def without (catalog : Catalog) (key : ContentKey) : Catalog :=
  catalog.filter fun entry => decide (entry.key ≠ key)

/-- An entry put before the first entry with a larger key. -/
def place (entry : ArchiveEntry) : Catalog → Catalog
  | [] => [entry]
  | head :: rest =>
    if entry.key.le head.key then entry :: head :: rest else head :: place entry rest

/-- The catalog with an entry in the place of what its key named before. -/
def put (catalog : Catalog) (entry : ArchiveEntry) : Catalog :=
  place entry (catalog.without entry.key)

def encode (catalog : Catalog) : Bytes := catalog.flatMap fun entry => entry.record.encode

/-- A catalog with the entries of the first `count` records added, in record order. -/
def readRecords (catalog : Catalog) : (count : Nat) → Bytes → Except Fault Catalog
  | 0, _ => .ok catalog
  | count + 1, bytes =>
    match HashRecord.decode bytes with
    | .error fault => .error fault
    | .ok row =>
      if catalog.has row.key then .error (.keyCollision row.key)
      else readRecords (catalog.put (.ofRecord row)) count (bytes.drop HashRecord.width)

/-- The catalog that the first `count` records hold; what follows them is ignored. -/
def decode (bytes : Bytes) (count : Nat) : Except Fault Catalog :=
  if bytes.length < count * HashRecord.width then
    .error (.malformed (.headerTableShort bytes.length count))
  else readRecords [] count bytes

end Catalog

end SlotStore
