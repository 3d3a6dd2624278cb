/-!
Byte strings and the little-endian words in them. A word of `width` bytes holds a number below
`256 ^ width`; a signed word holds its two's complement in eight bytes.
-/

namespace SlotStore

abbrev Bytes := List UInt8

namespace Bytes

/-- The `width` low bytes of a number, least significant first. -/
def ofNat : (width : Nat) → (value : Nat) → Bytes
  | 0, _ => []
  | width + 1, value => UInt8.ofNat value :: ofNat width (value / 256)

/-- The number whose little-endian digits are these bytes. -/
def toNat : Bytes → Nat
  | [] => 0
  | byte :: rest => byte.toNat + 256 * toNat rest

def ofInt (value : Int) : Bytes := ofNat 8 (value % 0x10000000000000000).toNat

/-- The signed word in eight bytes: numbers from `2 ^ 63` up stand for negative ones. -/
def toInt (bytes : Bytes) : Int :=
  let value := toNat bytes
  if value < 0x8000000000000000 then value else (value : Int) - 0x10000000000000000

/-- The number in the `width` bytes at a position. -/
def natAt (bytes : Bytes) (pos width : Nat) : Nat := toNat ((bytes.drop pos).take width)

def word32At (bytes : Bytes) (pos : Nat) : UInt32 := UInt32.ofNat (bytes.natAt pos 4)

def word64At (bytes : Bytes) (pos : Nat) : UInt64 := UInt64.ofNat (bytes.natAt pos 8)

def ofWord32 (word : UInt32) : Bytes := ofNat 4 word.toNat

def ofWord64 (word : UInt64) : Bytes := ofNat 8 word.toNat

def zeros (count : Nat) : Bytes := List.replicate count 0

@[simp] theorem length_ofNat (width value : Nat) : (ofNat width value).length = width := by
  induction width generalizing value with
  | zero => rfl
  | succ width ih => simp [ofNat, ih]

theorem ofNat_toNat (bytes : Bytes) : ofNat bytes.length (toNat bytes) = bytes := by
  induction bytes with
  | nil => rfl
  | cons byte rest ih =>
    have low : byte.toNat < 256 := byte.toNat_lt
    have quotient : (byte.toNat + 256 * toNat rest) / 256 = toNat rest := by omega
    have head : UInt8.ofNat (byte.toNat + 256 * toNat rest) = byte := by
      apply UInt8.toNat_inj.mp
      simp only [UInt8.toNat_ofNat']
      omega
    simp only [toNat, List.length_cons, ofNat, quotient, ih, head]

end Bytes

end SlotStore
