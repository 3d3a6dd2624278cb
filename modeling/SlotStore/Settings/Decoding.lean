import SlotStore.File
import SlotStore.Settings
import SlotStore.Toml.Document

/-!
Settings from a TOML document. Every setting has a default, and entries that are not settings are
ignored. A group of settings is a table, or an array of its settings in their order of
declaration. A float setting takes integers too, and an integer setting must fit its word.
-/

namespace SlotStore

/-- The group of settings that a value holds: its settings by name or by place. A moment holds
none. -/
inductive SettingsGroup where
  | named (entries : List (String × Toml.Value))
  | placed (items : List Toml.Value)

namespace SettingsGroup

def empty : SettingsGroup := .named []

def ofValue : Toml.Value → Except SettingsFlaw SettingsGroup
  | .table _ entries => .ok (.named entries)
  | .array _ items => .ok (.placed items)
  | .moment => .ok .empty
  | _ => .error .wrongType

def value? (group : SettingsGroup) (place : Nat) (name : String) : Option Toml.Value :=
  match group with
  | .named entries => entries.lookup name
  | .placed items => items[place]?

/-- The setting at a place or under a name, or its default. -/
def read (group : SettingsGroup) (decode : Toml.Value → Except SettingsFlaw α) (default : α)
    (place : Nat) (name : String) : Except SettingsFlaw α :=
  match group.value? place name with
  | some value => decode value
  | none => .ok default

/-- The group at a place or under a name; an absent one is empty. -/
def subgroup (group : SettingsGroup) (place : Nat) (name : String) :
    Except SettingsFlaw SettingsGroup :=
  group.read ofValue .empty place name

end SettingsGroup

/-- A natural number that fits a word of some bits. -/
def decodeWord (bits : Nat) : Toml.Value → Except SettingsFlaw Nat
  | .integer number =>
    if 0 ≤ number ∧ number < Nat.pow 2 bits then .ok number.toNat else .error .wrongType
  | _ => .error .wrongType

def decodeFlag : Toml.Value → Except SettingsFlaw Bool
  | .flag holds => .ok holds
  | _ => .error .wrongType

def decodeBinary (format : BinaryFormat) : Toml.Value → Except SettingsFlaw Binary
  | .integer number => .ok (format.ofInt number)
  | .float number => .ok (format.ofBinary number)
  | _ => .error .wrongType

def ContainerSettings.decode (group : SettingsGroup) : Except SettingsFlaw ContainerSettings := do
  let base : ContainerSettings := {}
  return {
    idleTimeout := ← group.read (decodeWord 64) base.idleTimeout 0 "idle_timeout_ms"
    tableGrowth := ← group.read (decodeBinary binary64) base.tableGrowth 1 "table_growth_factor"
    tableMinimum := ← group.read (decodeWord 32) base.tableMinimum 2 "table_min_growth"
    validateOnOpen := ← group.read decodeFlag base.validateOnOpen 3 "validate_on_open" }

def CompressionSettings.decode (group : SettingsGroup) :
    Except SettingsFlaw CompressionSettings := do
  let base : CompressionSettings := {}
  return {
    enabled := ← group.read decodeFlag base.enabled 0 "enabled"
    threshold := ← group.read (decodeWord 64) base.threshold 1 "threshold"
    minRatio := ← group.read (decodeBinary binary32) base.minRatio 2 "min_ratio" }

def ArchiveSettings.decode (group : SettingsGroup) : Except SettingsFlaw ArchiveSettings := do
  let base : ArchiveSettings := {}
  return {
    tableGrowth :=
      ← group.read (decodeBinary binary64) base.tableGrowth 0 "header_table_growth_factor"
    tableMinimum := ← group.read (decodeWord 32) base.tableMinimum 1 "header_table_min_records"
    compression := ← CompressionSettings.decode (← group.subgroup 2 "compression") }

namespace Settings

def decode (group : SettingsGroup) : Except SettingsFlaw Settings := do
  return {
    container := ← ContainerSettings.decode (← group.subgroup 0 "container")
    archive := ← ArchiveSettings.decode (← group.subgroup 1 "archive") }

/-- The settings in the text of a document; every one of them must be within its range. -/
def ofText (text : String) : Except SettingsFlaw Settings := do
  match Toml.parse text with
  | none => .error .notToml
  | some document =>
    let settings ← decode (← SettingsGroup.ofValue document)
    settings.check
    return settings

/-- The settings in a file, whose bytes must be text. -/
def ofFile (file : File) : Except Fault Settings :=
  match String.fromUTF8? file.content with
  | none => .error (.file .notText)
  | some text => (ofText text).mapError .settings

end Settings

end SlotStore
