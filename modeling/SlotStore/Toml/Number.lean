import SlotStore.Text.Hex
import SlotStore.Toml.Layout

/-!
Numbers. Single underscores may stand between digits. An integer fits a signed word; it is decimal
with an optional sign, or has a base marker and none. A float has a fraction, an exponent or both,
or is an infinity or a NaN.
-/

namespace SlotStore.Toml

/-- Underscores stand neither at an end nor next to each other. -/
def isWellSpaced (run : List Char) : Bool :=
  run.head? != some '_' && run.getLast? != some '_' &&
    (run.zip run.tail).all fun (left, right) => left != '_' || right != '_'

/-- The digits at the front, with single underscores between them. -/
def readDigits (isDigit : Char → Bool) (chars : List Char) : Option (List Char × List Char) :=
  let run := chars.takeWhile fun char => isDigit char || char == '_'
  if run.isEmpty || !isWellSpaced run then none
  else some (run.filter (· != '_'), chars.drop run.length)

def isDecimal (char : Char) : Bool := '0' ≤ char && char ≤ '9'

def numberOf (base : Nat) (digits : List Char) : Nat :=
  digits.foldl (fun number digit => base * number + (hexValue? digit).getD 0) 0

/-- Whether there is a minus sign, and what follows an optional sign. -/
def splitSign : List Char → Bool × List Char
  | '-' :: rest => (true, rest)
  | '+' :: rest => (false, rest)
  | chars => (false, chars)

def signed (negative : Bool) (magnitude : Nat) : Int :=
  if negative then -(magnitude : Int) else magnitude

/-- A decimal integer without leading zeros. -/
def readWhole (chars : List Char) : Option (List Char × List Char) :=
  match chars with
  | '0' :: rest => some (['0'], rest)
  | _ => readDigits isDecimal chars

/-- An integer that a signed word can hold. -/
def fitInteger (number : Int) : Option Value :=
  if -0x8000000000000000 ≤ number ∧ number < 0x8000000000000000 then some (.integer number) else none

def readBased (base : Nat) (chars : List Char) : Option (Value × List Char) := do
  let (digits, rest) ← readDigits (fun digit => (hexValue? digit).any (· < base)) chars
  return (← fitInteger (numberOf base digits), rest)

def readInteger : Reader Value
  | '0' :: 'x' :: rest => readBased 16 rest
  | '0' :: 'o' :: rest => readBased 8 rest
  | '0' :: 'b' :: rest => readBased 2 rest
  | chars => do
    let (negative, rest) := splitSign chars
    let (digits, rest) ← readWhole rest
    return (← fitInteger (signed negative (numberOf 10 digits)), rest)

/-- The digits behind a point; none without a point. -/
def readFraction : List Char → Option (List Char × List Char)
  | '.' :: rest => readDigits isDecimal rest
  | chars => some ([], chars)

/-- The power of ten behind an exponent mark. -/
def readExponent : List Char → Option (Option Int × List Char)
  | 'e' :: rest | 'E' :: rest =>
    let (negative, rest) := splitSign rest
    (readDigits isDecimal rest).map fun (digits, rest) =>
      (some (signed negative (numberOf 10 digits)), rest)
  | chars => some (none, chars)

/-- A number with a fraction or an exponent; one too large for a float is refused if positive. -/
def readPointed (chars : List Char) : Option (Value × List Char) := do
  let (negative, rest) := splitSign chars
  let (whole, rest) ← readWhole rest
  let (fraction, rest) ← readFraction rest
  let (power, rest) ← readExponent rest
  if fraction.isEmpty && power.isNone then none
  let number := binary64.ofDecimal negative (numberOf 10 (whole ++ fraction))
    (power.getD 0 - fraction.length)
  if number = .infinite false then none else some (.float number, rest)

/-- An infinity or a NaN, with an optional sign. -/
def readSpecial (chars : List Char) : Option (Value × List Char) :=
  let (negative, rest) := splitSign chars
  match rest with
  | 'i' :: 'n' :: 'f' :: rest => some (.float (.infinite negative), rest)
  | 'n' :: 'a' :: 'n' :: rest => some (.float .nan, rest)
  | _ => none

end SlotStore.Toml
