import SlotStore.Binary.Shortest
import SlotStore.Settings

/-!
Settings as a TOML document, which reads back as the same settings. A float is written with the
fewest digits that read back as the same double-precision value, without an exponent and with a
point; a single-precision value counts as the double-precision value that it is.
-/

namespace SlotStore

def Binary.tomlText : Binary → String
  | .nan => "nan"
  | .infinite negative => if negative then "-inf" else "inf"
  | .finite negative significand exponent =>
    let sign := if negative then "-" else ""
    if significand = 0 then sign ++ "0.0"
    else
      let (num, den) := shiftFraction significand 1 (-exponent)
      let (digits, power) := shortestDecimal num den
      sign ++ positional digits power ++ if num % den = 0 then ".0" else ""

/-- An integer setting; one that no signed word holds cannot be written. -/
def tomlInteger (name : String) (value : Nat) : Except SettingsFlaw String :=
  if value < 0x8000000000000000 then .ok s!"{name} = {value}" else .error (.integerTooLarge name)

def tomlFloat (name : String) (value : Binary) : String := s!"{name} = {value.tomlText}"

def tomlFlag (name : String) (value : Bool) : String := s!"{name} = {value}"

namespace Settings

def text (settings : Settings) : Except SettingsFlaw String := do
  let container := settings.container
  let archive := settings.archive
  let compression := archive.compression
  let lines := [
    "[container]",
    ← tomlInteger "idle_timeout_ms" container.idleTimeout,
    tomlFloat "table_growth_factor" container.tableGrowth,
    ← tomlInteger "table_min_growth" container.tableMinimum,
    tomlFlag "validate_on_open" container.validateOnOpen,
    "",
    "[archive]",
    tomlFloat "header_table_growth_factor" archive.tableGrowth,
    ← tomlInteger "header_table_min_records" archive.tableMinimum,
    "",
    "[archive.compression]",
    tomlFlag "enabled" compression.enabled,
    ← tomlInteger "threshold" compression.threshold,
    tomlFloat "min_ratio" compression.minRatio]
  return String.join (lines.map (· ++ "\n"))

end Settings

end SlotStore
