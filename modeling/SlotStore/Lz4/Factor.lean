import SlotStore.Lz4.Block

/-!
Greedy factoring of a byte string into a block. A table of 4096 positions under a hash of the bytes
there proposes one earlier position; the more misses in a row, the longer the steps. A match is
extended backwards into the literals and forwards up to six bytes before the end.
-/

namespace SlotStore.Lz4

/-- Bytes from here on that every search leaves to the last literals. -/
def searchMargin : Nat := 12

/-- Bytes at the end that no match covers. -/
def matchMargin : Nat := 6

/-- The farthest that a copy reaches back. -/
def farthest : Nat := 65535

def byteAt (data : Array UInt8) (pos : Nat) : UInt8 := data.getD pos 0

/-- The four bytes at a position as a little-endian word. -/
def word32 (data : Array UInt8) (pos : Nat) : UInt32 :=
  (byteAt data pos).toUInt32 ||| ((byteAt data (pos + 1)).toUInt32 <<< 8) |||
    ((byteAt data (pos + 2)).toUInt32 <<< 16) ||| ((byteAt data (pos + 3)).toUInt32 <<< 24)

/-- The eight bytes at a position as a little-endian word. -/
def word64 (data : Array UInt8) (pos : Nat) : UInt64 :=
  (word32 data pos).toUInt64 ||| ((word32 data (pos + 4)).toUInt64 <<< 32)

/-- The table slot of a position: twelve bits of a multiplicative hash, over four bytes in short
inputs and over five in long ones. -/
def slotOf (data : Array UInt8) (pos : Nat) : Nat :=
  if data.size < 65535 then ((word32 data pos * 2654435761) >>> 20).toNat
  else (((word64 data pos <<< 24) * 889523592379) >>> 52).toNat

/-- The next position whose four bytes also stand at the position that the table proposes. -/
def search (data : Array UInt8) (table : Array Nat) (here misses : Nat) :
    Array Nat × Option (Nat × Nat) :=
  if data.size < here + searchMargin then (table, none)
  else
    let slot := slotOf data here
    let earlier := table.getD slot 0
    let table := table.setIfInBounds slot here
    if here - earlier ≤ farthest ∧ word32 data earlier = word32 data here then
      (table, some (here, earlier))
    else search data table (here + (32 + misses) / 32) (misses + 1)
termination_by data.size - here
decreasing_by
  simp only [searchMargin] at *
  omega

/-- How many bytes before two positions are equal, down to the start of the literals. -/
def sharedBefore (data : Array UInt8) (start : Nat) : (here earlier : Nat) → Nat
  | here + 1, earlier + 1 =>
    if start ≤ here ∧ byteAt data here = byteAt data earlier then
      sharedBefore data start here earlier + 1
    else 0
  | _, _ => 0

/-- Where the bytes at two positions cease to be equal, at most at a limit. -/
def matchEnd (data : Array UInt8) (limit here earlier : Nat) : Nat :=
  if here < limit ∧ byteAt data here = byteAt data earlier then
    matchEnd data limit (here + 1) (earlier + 1)
  else here
termination_by limit - here

/-- The sequences from a start on, when the search goes on at `here`, and where the last literals
start. -/
def factorFrom (data : Array UInt8) (table : Array Nat) (start here : Nat) : List Sequence × Nat :=
  match search data table here 0 with
  | (_, none) => ([], start)
  | (table, some (found, earlier)) =>
    let back := sharedBefore data start found earlier
    let head := found - back
    let source := earlier - back
    let stop := matchEnd data (data.size - matchMargin) (head + 4) (source + 4)
    if _ : start < stop ∧ stop ≤ data.size then
      let table := table.setIfInBounds (slotOf data (stop - 2)) (stop - 2)
      let (sequences, last) := factorFrom data table stop stop
      (⟨(data.extract start head).toList, head - source, stop - head⟩ :: sequences, last)
    else ([], start)
termination_by data.size - start
decreasing_by
  change data.size - stop < data.size - start
  omega

/-- The block of a byte string. Fewer than thirteen bytes are all literals. -/
def factor (bytes : Bytes) : Block :=
  let data := bytes.toArray
  if data.size < searchMargin + 1 then ⟨[], bytes⟩
  else
    let (sequences, last) := factorFrom data (Array.replicate 4096 0) 0 1
    ⟨sequences, (data.extract last data.size).toList⟩

def compress (bytes : Bytes) : Bytes := (factor bytes).encode

end SlotStore.Lz4
