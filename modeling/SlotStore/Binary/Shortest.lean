import SlotStore.Binary

/-!
The shortest decimal that reads back as a given double-precision value, and its positional text.
For one, two, up to seventeen digits the two neighbours of the value on that decimal grid are
tried; the first grid with a hit wins, of two hits the nearer, and of two equally near the larger.
-/

namespace SlotStore

/-- The exponent of the highest power of ten that is at most `num / den`. -/
def leadingTen (num den : Nat) : Int :=
  if den ≤ num then ((Nat.toDigits 10 (num / den)).length : Int) - 1
  else
    match (List.range 400).find? fun places => decide (den ≤ num * Nat.pow 10 (places + 1)) with
    | some places => -((places : Int) + 1)
    | none => -400

/-- The fraction `num / den` divided by `10 ^ exponent`. -/
def shiftTens (num den : Nat) (exponent : Int) : Nat × Nat :=
  if 0 ≤ exponent then (num, den * Nat.pow 10 exponent.toNat)
  else (num * Nat.pow 10 (-exponent).toNat, den)

/-- The same decimal without zeros at the end of its digits. -/
def dropZeros (digits : Nat) (exponent : Int) : Nat × Int :=
  if digits ≠ 0 ∧ digits % 10 = 0 then dropZeros (digits / 10) (exponent + 1)
  else (digits, exponent)
termination_by digits
decreasing_by omega

/-- Digits and a power of ten for a positive fraction that is a double-precision value. -/
def shortestDecimal (num den : Nat) : Nat × Int :=
  let value := binary64.round false num den
  let leading := leadingTen num den
  let onGrid (count : Nat) : Option (Nat × Int) :=
    let exponent := leading - count
    let (shiftedNum, shiftedDen) := shiftTens num den exponent
    let low := shiftedNum / shiftedDen
    let lowHits := decide (binary64.ofDecimal false low exponent = value)
    let highHits := decide (binary64.ofDecimal false (low + 1) exponent = value)
    if lowHits && highHits then
      some (if 2 * (shiftedNum % shiftedDen) < shiftedDen then low else low + 1, exponent)
    else if lowHits then some (low, exponent)
    else if highHits then some (low + 1, exponent)
    else none
  match (List.range 17).findSome? onGrid with
  | some (digits, exponent) => dropZeros digits exponent
  | none => (0, 0)

/-- A decimal without an exponent: digits, a point, and zeros where they are needed. -/
def positional (digits : Nat) (exponent : Int) : String :=
  let text := Nat.toDigits 10 digits
  if 0 ≤ exponent then String.ofList (text ++ List.replicate exponent.toNat '0')
  else
    let places := (-exponent).toNat
    let padded := List.replicate (places + 1 - text.length) '0' ++ text
    String.ofList (padded.take (padded.length - places)) ++ "." ++
      String.ofList (padded.drop (padded.length - places))

end SlotStore
