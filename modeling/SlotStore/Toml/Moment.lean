import SlotStore.Toml.Number

/-!
Dates and times of day: `year-month-day`, `hour:minute:second` with an optional fraction, or both
with an optional offset. The day must occur in its month.
-/

namespace SlotStore.Toml

def readFixed (width : Nat) (chars : List Char) : Option (Nat × List Char) :=
  let digits := (chars.take width).takeWhile isDecimal
  if digits.length = width then some (numberOf 10 digits, chars.drop width) else none

/-- Two digits that spell a number between two bounds. -/
def readPair (least greatest : Nat) (chars : List Char) : Option (Nat × List Char) :=
  match readFixed 2 chars with
  | some (number, rest) => if least ≤ number ∧ number ≤ greatest then some (number, rest) else none
  | none => none

def isLeapYear (year : Nat) : Bool :=
  year % 4 == 0 && (year % 100 != 0 || year % 400 == 0)

def daysInMonth (year month : Nat) : Nat :=
  if month = 2 then (if isLeapYear year then 29 else 28)
  else if month ∈ [4, 6, 9, 11] then 30
  else 31

def skipDate (chars : List Char) : Option (List Char) := do
  let (year, rest) ← readFixed 4 chars
  let (month, rest) ← readPair 1 12 (← skipText ['-'] rest)
  let (_, rest) ← readPair 1 (daysInMonth year month) (← skipText ['-'] rest)
  return rest

/-- What follows the fraction of a second, if there is one. -/
def skipSecondFraction : List Char → List Char
  | '.' :: digit :: rest =>
    if isDecimal digit then rest.dropWhile isDecimal else '.' :: digit :: rest
  | chars => chars

/-- What follows a time of day; a minute may have a leap second. -/
def skipTime (chars : List Char) : Option (List Char) := do
  let (_, rest) ← readPair 0 23 chars
  let (_, rest) ← readPair 0 59 (← skipText [':'] rest)
  let (_, rest) ← readPair 0 60 (← skipText [':'] rest)
  return skipSecondFraction rest

/-- What follows an offset from universal time, if there is one. -/
def skipOffset : List Char → Option (List Char)
  | 'Z' :: rest | 'z' :: rest => some rest
  | '+' :: rest | '-' :: rest => do
    let (_, rest) ← readPair 0 23 rest
    let (_, rest) ← readPair 0 59 (← skipText [':'] rest)
    return rest
  | chars => some chars

/-- What follows a time of day behind a date, if there is one. -/
def skipTimeOfDate (chars : List Char) : Option (List Char) :=
  match chars with
  | 'T' :: rest | 't' :: rest => do skipOffset (← skipTime rest)
  | ' ' :: rest =>
    match rest with
    | digit :: _ => if isDecimal digit then do skipOffset (← skipTime rest) else some chars
    | [] => some chars
  | _ => some chars

def readMoment (chars : List Char) : Option (Value × List Char) :=
  match skipDate chars with
  | some rest => (skipTimeOfDate rest).map (.moment, ·)
  | none => (skipTime chars).map (.moment, ·)

end SlotStore.Toml
