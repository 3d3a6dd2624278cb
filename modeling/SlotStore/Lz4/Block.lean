import SlotStore.Bytes

/-!
LZ4 blocks as values. A block is a list of sequences, each a run of literals and a copy of earlier
output, and a last run of literals. `expand` gives the bytes that a block stands for, `encode` its
stored form.
-/

namespace SlotStore.Lz4

/-- Literals, and behind them a copy of `length` bytes from `offset` bytes back. -/
structure Sequence where
  literals : Bytes
  offset : Nat
  length : Nat
deriving DecidableEq, Repr

structure Block where
  sequences : List Sequence
  last : Bytes
deriving DecidableEq, Repr

/-- The shortest copy; lengths are stored less this. -/
def shortestCopy : Nat := 4

/-- Output with a byte from `offset` back pushed `length` times; a copy may overlap itself. -/
def copyBack (output : Array UInt8) (offset : Nat) : (length : Nat) → Array UInt8
  | 0 => output
  | length + 1 => copyBack (output.push (output.getD (output.size - offset) 0)) offset length

def Sequence.expand (sequence : Sequence) (output : Array UInt8) : Array UInt8 :=
  copyBack (output ++ sequence.literals) sequence.offset sequence.length

def Block.expand (block : Block) : Bytes :=
  (block.sequences.foldl (fun output sequence => sequence.expand output) #[]).toList ++ block.last

/-- What a length nibble leaves over: bytes of 255 and one smaller byte. -/
def extension (rest : Nat) : Bytes :=
  List.replicate (rest / 255) 255 ++ [UInt8.ofNat (rest % 255)]

/-- The bytes behind a saturated nibble; none where the nibble holds the whole length. -/
def overflowBytes (length : Nat) : Bytes :=
  if length < 15 then [] else extension (length - 15)

/-- The byte with the nibbles of both lengths, each saturated at 15. -/
def token (literals copy : Nat) : UInt8 := UInt8.ofNat (16 * min literals 15 + min copy 15)

def Sequence.encode (sequence : Sequence) : Bytes :=
  let literals := sequence.literals.length
  let copy := sequence.length - shortestCopy
  token literals copy :: overflowBytes literals ++ sequence.literals ++
    Bytes.ofNat 2 sequence.offset ++ overflowBytes copy

def Block.encode (block : Block) : Bytes :=
  block.sequences.flatMap Sequence.encode ++
    token block.last.length 0 :: overflowBytes block.last.length ++ block.last

end SlotStore.Lz4
