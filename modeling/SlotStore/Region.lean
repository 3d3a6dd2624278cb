import SlotStore.Bytes

/-!
Regions of the file and the states of the slots that hold them. Two equal guard words stand around
the bytes of a region; their magnitude is its capacity, their sign says whether it is live.
-/

namespace SlotStore

/-- Every capacity is a multiple of this. -/
def granule : Nat := 16

/-- The position of the first guard word, just behind the header. -/
def firstGuard : Nat := 0x230

/-- The lowest offset that a region can have. -/
def firstOffset : Nat := 0x238

/-- A stretch of the file: `capacity` bytes from `offset` on, `size` of them in use. -/
structure Region where
  offset : Nat
  size : Nat
  capacity : Nat
deriving DecidableEq, Repr, Inhabited

namespace Region

def leadingGuard (region : Region) : Nat := region.offset - 8

def trailingGuard (region : Region) : Nat := region.offset + region.capacity

/-- The end of the region with its trailing guard and the leading guard of what comes next. -/
def next (region : Region) : Nat := region.offset + region.capacity + 16

end Region

/-- A slot is unused, holds live contents, or holds a released region that awaits reuse. A
deletable region is also marked for physical reclamation. -/
inductive SlotState where
  | unused
  | live (region : Region)
  | free (region : Region) (deletable : Bool)
deriving DecidableEq, Repr, Inhabited

namespace SlotState

def region? : SlotState → Option Region
  | .unused => none
  | .live region | .free region _ => some region

/-- The state with its region, if it has one, changed. -/
def mapRegion (change : Region → Region) : SlotState → SlotState
  | .unused => .unused
  | .live region => .live (change region)
  | .free region deletable => .free (change region) deletable

def isUnused : SlotState → Bool
  | .unused => true
  | _ => false

def isLive : SlotState → Bool
  | .live _ => true
  | _ => false

def isFree : SlotState → Bool
  | .free _ _ => true
  | _ => false

def isDeletable : SlotState → Bool
  | .free _ deletable => deletable
  | _ => false

/-- A capacity as a signed word. -/
def signedCapacity (region : Region) : Int := Int.bmod region.capacity 0x10000000000000000

/-- The word that stands on both sides of the region: positive when live, negative when free. -/
def guardWord : SlotState → Option Int
  | .unused => none
  | .live region => some (signedCapacity region)
  | .free region _ => some (Int.bmod (-signedCapacity region) 0x10000000000000000)

end SlotState

end SlotStore
