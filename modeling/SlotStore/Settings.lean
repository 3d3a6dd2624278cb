import SlotStore.Binary
import SlotStore.Fault

/-!
Settings of containers, archives and compression, with defaults and ranges. A growth factor lies
between 1 and 16 and a ratio between 0 and 1; a NaN passes every range.
-/

namespace SlotStore

structure ContainerSettings where
  /-- Milliseconds without use after which the file is closed; 0 keeps it open. -/
  idleTimeout : Nat := 5000
  /-- Multiplier from slots to slot-table records. -/
  tableGrowth : Binary := binary64.ofDecimal false 125 (-2)
  /-- Fewest records of a slot table. -/
  tableMinimum : Nat := 50
  /-- Rescan the guards whenever an existing file is opened. -/
  validateOnOpen : Bool := false
deriving DecidableEq, Repr

structure CompressionSettings where
  enabled : Bool := false
  /-- Fewest bytes of a blob that compression is tried on. -/
  threshold : Nat := 512
  /-- A compressed form is stored only when its share of the blob is below this. -/
  minRatio : Binary := binary32.ofDecimal false 9 (-1)
deriving DecidableEq, Repr

structure ArchiveSettings where
  /-- Multiplier from entries to header-table records. -/
  tableGrowth : Binary := binary64.ofDecimal false 15 (-1)
  /-- Fewest records of a header table. -/
  tableMinimum : Nat := 1000
  compression : CompressionSettings := {}
deriving DecidableEq, Repr

structure Settings where
  container : ContainerSettings := {}
  archive : ArchiveSettings := {}
deriving DecidableEq, Repr

namespace ContainerSettings

def idle? (settings : ContainerSettings) : Option Nat :=
  if 0 < settings.idleTimeout then some settings.idleTimeout else none

/-- Takes a timeout in microseconds; a short one counts as a millisecond, none keeps files open. -/
def withIdleTimeout (settings : ContainerSettings) (micros : Option Nat) : ContainerSettings :=
  { settings with idleTimeout := match micros with
    | none => 0
    | some duration => max (duration / 1000) 1 }

/-- The first setting out of range is reported. -/
def check (settings : ContainerSettings) : Except SettingsFlaw Unit :=
  if !settings.tableGrowth.within 1 16 then .error (.outOfRange "table_growth_factor")
  else if settings.tableMinimum < 1 then .error (.outOfRange "table_min_growth")
  else .ok ()

/-- Records that a new slot table has room for, given the number of slots. -/
def tableRecords (settings : ContainerSettings) (slots : Nat) : Nat :=
  max (Binary.scaleCeil slots settings.tableGrowth) settings.tableMinimum

end ContainerSettings

namespace CompressionSettings

def lz4 : CompressionSettings := { enabled := true }

def check (settings : CompressionSettings) : Except SettingsFlaw Unit :=
  if !settings.minRatio.within 0 1 then .error (.outOfRange "min_ratio") else .ok ()

end CompressionSettings

namespace ArchiveSettings

/-- The first setting out of range is reported. -/
def check (settings : ArchiveSettings) : Except SettingsFlaw Unit :=
  if !settings.tableGrowth.within 1 16 then .error (.outOfRange "header_table_growth_factor")
  else if settings.tableMinimum < 1 then .error (.outOfRange "header_table_min_records")
  else settings.compression.check

/-- Records that a new header table has room for, given the number of entries. -/
def headerTableRecords (settings : ArchiveSettings) (entries : Nat) : Nat :=
  max (Binary.scaleCeil entries settings.tableGrowth) settings.tableMinimum

end ArchiveSettings

namespace Settings

def check (settings : Settings) : Except SettingsFlaw Unit :=
  match settings.container.check with
  | .error flaw => .error flaw
  | .ok () => settings.archive.check

/-- Equal setting by setting, factors and ratios as numbers. -/
def same (left right : Settings) : Bool :=
  left.container.idleTimeout == right.container.idleTimeout &&
    left.container.tableGrowth.same right.container.tableGrowth &&
    left.container.tableMinimum == right.container.tableMinimum &&
    left.container.validateOnOpen == right.container.validateOnOpen &&
    left.archive.tableGrowth.same right.archive.tableGrowth &&
    left.archive.tableMinimum == right.archive.tableMinimum &&
    left.archive.compression.enabled == right.archive.compression.enabled &&
    left.archive.compression.threshold == right.archive.compression.threshold &&
    left.archive.compression.minRatio.same right.archive.compression.minRatio

end Settings

end SlotStore
