/-!
Binary floating-point numbers as exact values, and rounding to the nearest number of a format.
A tie goes to the even significand. Everything is computed on naturals and integers, so the laws
of rounding are laws of division.
-/

namespace SlotStore

/-- The quotient rounded to the nearest natural; a tie goes to the even one. -/
def nearestEven (num den : Nat) : Nat :=
  let quotient := num / den
  let twice := 2 * (num % den)
  if twice < den then quotient
  else if den < twice then quotient + 1
  else quotient + quotient % 2

/-- A floating-point value: `finite negative significand exponent` is
`± significand * 2 ^ exponent`. -/
inductive Binary where
  | nan
  | infinite (negative : Bool)
  | finite (negative : Bool) (significand : Nat) (exponent : Int)
deriving DecidableEq, Repr, Inhabited

/-- Significands have at most `digits` bits, exponents lie between `least` and `greatest`. -/
structure BinaryFormat where
  digits : Nat
  least : Int
  greatest : Int

def binary64 : BinaryFormat := ⟨53, -1074, 971⟩

def binary32 : BinaryFormat := ⟨24, -149, 104⟩

/-- The fraction `num / den` divided by `2 ^ exponent`, as a numerator and a denominator. -/
def shiftFraction (num den : Nat) (exponent : Int) : Nat × Nat :=
  if 0 ≤ exponent then (num, den * Nat.pow 2 exponent.toNat)
  else (num * Nat.pow 2 (-exponent).toNat, den)

/-- The exponent of the highest power of two that is at most `num / den`. -/
def leadingExponent (num den : Nat) : Int :=
  let guess : Int := (num.log2 : Int) - den.log2
  let (shiftedNum, shiftedDen) := shiftFraction num den guess
  if shiftedDen ≤ shiftedNum then guess else guess - 1

namespace BinaryFormat

/-- The nearest value of the format; what rounds past its largest value is infinite. -/
def round (format : BinaryFormat) (negative : Bool) (num den : Nat) : Binary :=
  if num = 0 then .finite negative 0 format.least
  else
    let exponent := max format.least (leadingExponent num den - (format.digits - 1 : Nat))
    let (shiftedNum, shiftedDen) := shiftFraction num den exponent
    let rounded := nearestEven shiftedNum shiftedDen
    let (significand, exponent) :=
      if rounded = Nat.pow 2 format.digits then (Nat.pow 2 (format.digits - 1), exponent + 1)
      else (rounded, exponent)
    if format.greatest < exponent then .infinite negative
    else .finite negative significand exponent

def ofNat (format : BinaryFormat) (value : Nat) : Binary := format.round false value 1

def ofInt (format : BinaryFormat) (value : Int) : Binary :=
  format.round (decide (value < 0)) value.natAbs 1

/-- The value of another format rounded to this one. -/
def ofBinary (format : BinaryFormat) : Binary → Binary
  | .finite negative significand exponent =>
    let (num, den) := shiftFraction significand 1 (-exponent)
    format.round negative num den
  | other => other

/-- The nearest value of `± digits * 10 ^ exponent`. Beyond 400 places before or behind the point
every format is past its largest or below its smallest value. -/
def ofDecimal (format : BinaryFormat) (negative : Bool) (digits : Nat) (exponent : Int) : Binary :=
  let places : Int := exponent + (Nat.toDigits 10 digits).length
  if digits = 0 ∨ places < -400 then .finite negative 0 format.least
  else if 400 < places then .infinite negative
  else if 0 ≤ exponent then format.round negative (digits * Nat.pow 10 exponent.toNat) 1
  else format.round negative digits (Nat.pow 10 (-exponent).toNat)

/-- The interchange encoding: sign, biased exponent, significand without its leading bit. -/
def bits (format : BinaryFormat) (width : Nat) (value : Binary) : Nat :=
  let hidden := Nat.pow 2 (format.digits - 1)
  let sign (negative : Bool) : Nat := if negative then Nat.pow 2 (width - 1) else 0
  let top := Nat.pow 2 (width - 1) - hidden
  match format.ofBinary value with
  | .nan => top + hidden / 2
  | .infinite negative => sign negative + top
  | .finite negative significand exponent =>
    if significand < hidden then sign negative + significand
    else sign negative + (exponent - format.least).toNat * hidden + significand

end BinaryFormat

namespace Binary

/-- The value times `2 ^ (-base)`, for a base at most the exponent. -/
def scaled (negative : Bool) (significand : Nat) (exponent base : Int) : Int :=
  let magnitude : Int := significand * Nat.pow 2 (exponent - base).toNat
  if negative then -magnitude else magnitude

/-- Strictly smaller; a NaN is smaller than nothing and nothing is smaller than it. -/
def lt : Binary → Binary → Bool
  | .nan, _ | _, .nan => false
  | .infinite left, .infinite right => left && !right
  | .infinite left, .finite _ _ _ => left
  | .finite _ _ _, .infinite right => !right
  | .finite leftSign left leftExp, .finite rightSign right rightExp =>
    let base := min leftExp rightExp
    decide (scaled leftSign left leftExp base < scaled rightSign right rightExp base)

def isNan : Binary → Bool
  | .nan => true
  | _ => false

/-- Equal as numbers: both zeros are equal, a NaN equals nothing. -/
def same (left right : Binary) : Bool :=
  !left.isNan && !right.isNan && !left.lt right && !right.lt left

/-- Neither below the lower nor above the upper bound; a NaN is within every range. -/
def within (value : Binary) (lower upper : Nat) : Bool :=
  !value.lt (.finite false lower 0) && !(Binary.finite false upper 0).lt value

/-- The least natural at or above a value, saturating at the largest word; zero for a NaN and for
negative values. -/
def ceilWord : Binary → Nat
  | .nan => 0
  | .infinite negative => if negative then 0 else 0xffffffffffffffff
  | .finite negative significand exponent =>
    if negative then 0
    else
      let (num, den) := shiftFraction significand 1 (-exponent)
      min ((num + den - 1) / den) 0xffffffffffffffff

/-- The product of two double-precision values. -/
def mul64 : Binary → Binary → Binary
  | .nan, _ | _, .nan => .nan
  | .infinite left, .infinite right => .infinite (left != right)
  | .infinite left, .finite right significand _
  | .finite right significand _, .infinite left =>
    if significand = 0 then .nan else .infinite (left != right)
  | .finite left leftSig leftExp, .finite right rightSig rightExp =>
    let (num, den) := shiftFraction (leftSig * rightSig) 1 (-(leftExp + rightExp))
    binary64.round (left != right) num den

/-- A count times a factor in double precision, rounded up to a whole number. -/
def scaleCeil (count : Nat) (factor : Binary) : Nat :=
  ((binary64.ofNat count).mul64 factor).ceilWord

/-- The quotient of two counts in single precision; the divisor is not zero. -/
def ratio32 (part whole : Nat) : Binary :=
  match binary32.ofNat part, binary32.ofNat whole with
  | .finite _ partSig partExp, .finite _ wholeSig wholeExp =>
    let (num, den) := shiftFraction partSig wholeSig (wholeExp - partExp)
    binary32.round false num den
  | _, _ => .nan

end Binary

end SlotStore
