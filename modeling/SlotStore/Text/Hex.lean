/-!
Hexadecimal text: one digit for four bits, two digits for a byte, and numbers after `0x`.
Digits are written in lower case and read in either case.
-/

namespace SlotStore

/-- The lower-case digit of a value below sixteen. -/
def hexDigit (value : Nat) : Char :=
  if value < 10 then Char.ofNat (48 + value) else Char.ofNat (87 + value)

/-- The value of a hexadecimal digit of either case. -/
def hexValue? (digit : Char) : Option Nat :=
  if '0' ≤ digit ∧ digit ≤ '9' then some (digit.toNat - 48)
  else if 'a' ≤ digit ∧ digit ≤ 'f' then some (digit.toNat - 87)
  else if 'A' ≤ digit ∧ digit ≤ 'F' then some (digit.toNat - 55)
  else none

/-- The two digits of a byte, high half first. -/
def hexByte (byte : UInt8) : List Char :=
  [hexDigit (byte.toNat / 16), hexDigit (byte.toNat % 16)]

/-- The digits of a byte string, two a byte. -/
def hexText (bytes : List UInt8) : String :=
  String.ofList (bytes.flatMap hexByte)

/-- A number in hexadecimal after `0x`, without leading zeros. -/
def hexNumber (value : Nat) : String :=
  "0x" ++ String.ofList (Nat.toDigits 16 value)

theorem hexValue?_hexDigit (value : Nat) (small : value < 16) :
    hexValue? (hexDigit value) = some value := by
  have table : ∀ digit : Fin 16, hexValue? (hexDigit digit.val) = some digit.val := by decide
  exact table ⟨value, small⟩

end SlotStore
