import SlotStore.ContentKey

/-!
Causes of failure. Each cause is a value; its wording is in one function beside it. A cause that a
caller brings along is `stated` in words.
-/

namespace SlotStore

/-- The fixed-width records, as error texts call them. -/
inductive RecordNoun where
  | slotRecord
  | slotTable
  | rootRecord
  | hashRecord
deriving DecidableEq, Repr

def RecordNoun.text : RecordNoun → String
  | .slotRecord => "slot record"
  | .slotTable => "slot table"
  | .rootRecord => "root record"
  | .hashRecord => "hash record"

/-- How the bytes of a file contradict the layout. -/
inductive Damage where
  | shortFile (size : Nat)
  | shortHeader (size : Nat)
  | endInsideHeader (endOfFile : Nat)
  | shortRecord (noun : RecordNoun) (needed held : Nat)
  | rootWithoutTable
  | tableOutside (count offset size : Nat)
  | tableUnowned (offset : Nat)
  | rootNotUser (root : Nat)
  | sentinelTaken
  | regionShared (offset : Nat)
  | regionPastEnd (offset size : Nat)
  | badLeadingGuard (guard : Int) (offset : Nat)
  | regionOverruns (offset capacity : Nat)
  | guardsDiffer (offset : Nat) (leading trailing : Int)
  | sizeOverCapacity (offset size capacity : Nat)
  | misalignedLength (offset length : Nat)
  | walkOverruns (offset capacity size : Nat)
  | tableNotLive (index : Nat)
  | headerTableShort (held entries : Nat)
  | stated (text : String)
deriving DecidableEq, Repr

def Damage.message : Damage → String
  | .shortFile size => s!"file of {size} bytes is shorter than the header"
  | .shortHeader size => s!"header needs 560 bytes, file has {size}"
  | .endInsideHeader endOfFile => s!"end-of-file {hexNumber endOfFile} lies inside the header"
  | .shortRecord noun needed held => s!"{noun.text} needs {needed} bytes, got {held}"
  | .rootWithoutTable => "root index set without a slot table"
  | .tableOutside count offset size =>
    s!"slot table of {count} records at {hexNumber offset} does not fit in {size} bytes"
  | .tableUnowned offset => s!"no live slot owns the slot table at {hexNumber offset}"
  | .rootNotUser root => s!"root index {root} is not a user slot"
  | .sentinelTaken => "sentinel slot 0 holds a region"
  | .regionShared offset => s!"two slots claim the region at {hexNumber offset}"
  | .regionPastEnd offset size =>
    s!"region at {hexNumber offset} lies past end of file ({hexNumber size})"
  | .badLeadingGuard guard offset =>
    s!"bad leading guard {guard} for region at {hexNumber offset}"
  | .regionOverruns offset capacity =>
    s!"region at {hexNumber offset} with {capacity} bytes runs past end of file"
  | .guardsDiffer offset leading trailing =>
    s!"guard mismatch around {hexNumber offset}: leading {leading}, trailing {trailing}"
  | .sizeOverCapacity offset size capacity =>
    s!"region at {hexNumber offset} records size {size} over capacity {capacity}"
  | .misalignedLength offset length =>
    s!"region at {hexNumber offset} has misaligned length {length}"
  | .walkOverruns offset capacity size =>
    s!"region at {hexNumber offset} with {capacity} bytes runs past end of file ({hexNumber size})"
  | .tableNotLive index => s!"slot table slot {index} is not live"
  | .headerTableShort held entries =>
    s!"header table holds {held} bytes, {entries} entries need {entries * 32}"
  | .stated text => text

/-- Why a slot cannot be used for what was asked. -/
inductive SlotRefusal where
  | sentinel
  | reservedForTable
  | outOfRange
  | unallocated
  | released
  | stated (text : String)
deriving DecidableEq, Repr

def SlotRefusal.message : SlotRefusal → String
  | .sentinel => "slot 0 is the reserved sentinel"
  | .reservedForTable => "slot is reserved for the slot table"
  | .outOfRange => "index out of range"
  | .unallocated => "slot is not allocated"
  | .released => "slot has been released"
  | .stated text => text

/-- Which limit a number passes. -/
inductive Excess where
  | capacity (requested : Nat)
  | growth (endOfFile : Nat)
  | guard (held : Nat)
  | write (length position held index : Nat)
  | slotIndices
  | slotRecords (count : Nat)
  | slotTable (count : Nat)
  | tableGrowth (count : Nat)
  | entries (count : Nat)
  | stated (text : String)
deriving DecidableEq, Repr

def Excess.message : Excess → String
  | .capacity requested => s!"capacity for {requested} bytes"
  | .growth endOfFile => s!"file growth past {hexNumber endOfFile}"
  | .guard held => s!"capacity {held}"
  | .write length position held index =>
    s!"{length} bytes at {position} exceed capacity {held} of slot {index}"
  | .slotIndices => "slot table exceeds u32 indices"
  | .slotRecords count => s!"{count} slot records"
  | .slotTable count => s!"slot table of {count} records"
  | .tableGrowth count => s!"slot table outgrows every region for {count} records"
  | .entries count => s!"{count} archive entries"
  | .stated text => text

inductive IdentityField where
  | signature
  | version
  | rootSignature
  | rootVersion
  | stated (text : String)
deriving DecidableEq, Repr

def IdentityField.text : IdentityField → String
  | .signature => "signature"
  | .version => "version"
  | .rootSignature => "root signature"
  | .rootVersion => "root version"
  | .stated text => text

inductive BlockFlaw where
  | byteMissing
  | literalOutside
  | outputTooSmall (actual expected : Nat)
  | zeroOffset
  | offsetOutside
deriving DecidableEq, Repr

def BlockFlaw.message : BlockFlaw → String
  | .byteMissing => "expected another byte, found none"
  | .literalOutside => "literal is out of bounds of the input"
  | .outputTooSmall actual expected =>
    "provided output is too small for the decompressed data, " ++
      s!"actual {actual}, expected {expected}"
  | .zeroOffset => "0 is not a valid match offset"
  | .offsetOutside => "the offset to copy is not contained in the decompressed buffer"

/-- Why a stored blob does not give back its bytes. -/
inductive ExpansionFlaw where
  | block (flaw : BlockFlaw)
  | length (expected found : Nat)
  | stated (text : String)
deriving DecidableEq, Repr

def ExpansionFlaw.message : ExpansionFlaw → String
  | .block flaw => s!"LZ4 decompression failed: {flaw.message}"
  | .length expected found => s!"expected {expected} bytes, decompressed {found}"
  | .stated text => text

inductive SettingsFlaw where
  | notToml
  | wrongType
  | outOfRange (field : String)
  | integerTooLarge (field : String)
  | pathMissing
  | stated (text : String)
deriving DecidableEq, Repr

def SettingsFlaw.message : SettingsFlaw → String
  | .notToml => "not a TOML document"
  | .wrongType => "a value has the wrong type"
  | .outOfRange field => s!"{field} is out of range"
  | .integerTooLarge field => s!"{field} does not fit a TOML integer"
  | .pathMissing => "archive path must be set"
  | .stated text => text

inductive FileFailure where
  | unexpectedEnd
  | slotFull (index capacity : Nat)
  | seekOutOfRange
  | notText
  | notFound
  | isFolder
  | notFolder
  | reported (text : String)
deriving DecidableEq, Repr

def FileFailure.message : FileFailure → String
  | .unexpectedEnd => "failed to fill whole buffer"
  | .slotFull index capacity => s!"slot {index} is full ({capacity} bytes)"
  | .seekOutOfRange => "seek to a negative or overflowing position"
  | .notText => "stream did not contain valid UTF-8"
  | .notFound => "No such file or directory (os error 2)"
  | .isFolder => "Is a directory (os error 21)"
  | .notFolder => "Not a directory (os error 20)"
  | .reported text => text

/-- Everything that an operation on a container or an archive can fail with. -/
inductive Fault where
  | malformed (damage : Damage)
  | invalidSlot (index : Nat) (refusal : SlotRefusal)
  | keyCollision (key : ContentKey)
  | keyNotFound (key : ContentKey)
  | mismatch (field : IdentityField) (expected found : UInt32)
  | overflow (excess : Excess)
  | appendInFlight
  | compression (flaw : ExpansionFlaw)
  | settings (flaw : SettingsFlaw)
  | file (failure : FileFailure)
deriving DecidableEq

def Fault.message : Fault → String
  | .malformed damage => s!"Malformed container: {damage.message}"
  | .invalidSlot index refusal => s!"Invalid slot {index}: {refusal.message}"
  | .keyCollision key => s!"Hash collision: {key.text} is already stored"
  | .keyNotFound key => s!"Hash not found: {key.text}"
  | .mismatch field expected found =>
    s!"Header mismatch in {field.text}: expected {hexNumber expected.toNat}, " ++
      s!"found {hexNumber found.toNat}"
  | .overflow excess => s!"Overflow: {excess.message}"
  | .appendInFlight => "An append write is already in flight"
  | .compression flaw => s!"Compression error: {flaw.message}"
  | .settings flaw => s!"Configuration error: {flaw.message}"
  | .file failure => s!"I/O error: {failure.message}"

inductive FaultKind where
  | malformedLayout
  | invalidSlot
  | archiveCollision
  | archiveNotFound
  | headerMismatch
  | overflow
  | usage
  | config
  | io
deriving DecidableEq, Repr

/-- A blob that cannot be expanded counts as a malformed layout. -/
def Fault.kind : Fault → FaultKind
  | .malformed _ => .malformedLayout
  | .invalidSlot _ _ => .invalidSlot
  | .keyCollision _ => .archiveCollision
  | .keyNotFound _ => .archiveNotFound
  | .mismatch _ _ _ => .headerMismatch
  | .overflow _ => .overflow
  | .appendInFlight => .usage
  | .compression _ => .malformedLayout
  | .settings _ => .config
  | .file _ => .io

end SlotStore
