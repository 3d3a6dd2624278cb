import SlotStore.Bytes

/-!
SHA-256: padding to blocks of 64 bytes, the message schedule, 64 rounds a block, and 32 bytes of
digest.
-/

namespace SlotStore.Sha256

structure Chain where
  a : UInt32
  b : UInt32
  c : UInt32
  d : UInt32
  e : UInt32
  f : UInt32
  g : UInt32
  h : UInt32

/-- Fractional parts of the square roots of the first eight primes. -/
def initial : Chain :=
  ⟨0x6a09e667, 0xbb67ae85, 0x3c6ef372, 0xa54ff53a, 0x510e527f, 0x9b05688c, 0x1f83d9ab, 0x5be0cd19⟩

/-- Fractional parts of the cube roots of the first 64 primes. -/
def roundConstants : List UInt32 :=
  [0x428a2f98, 0x71374491, 0xb5c0fbcf, 0xe9b5dba5, 0x3956c25b, 0x59f111f1, 0x923f82a4, 0xab1c5ed5,
   0xd807aa98, 0x12835b01, 0x243185be, 0x550c7dc3, 0x72be5d74, 0x80deb1fe, 0x9bdc06a7, 0xc19bf174,
   0xe49b69c1, 0xefbe4786, 0x0fc19dc6, 0x240ca1cc, 0x2de92c6f, 0x4a7484aa, 0x5cb0a9dc, 0x76f988da,
   0x983e5152, 0xa831c66d, 0xb00327c8, 0xbf597fc7, 0xc6e00bf3, 0xd5a79147, 0x06ca6351, 0x14292967,
   0x27b70a85, 0x2e1b2138, 0x4d2c6dfc, 0x53380d13, 0x650a7354, 0x766a0abb, 0x81c2c92e, 0x92722c85,
   0xa2bfe8a1, 0xa81a664b, 0xc24b8b70, 0xc76c51a3, 0xd192e819, 0xd6990624, 0xf40e3585, 0x106aa070,
   0x19a4c116, 0x1e376c08, 0x2748774c, 0x34b0bcb5, 0x391c0cb3, 0x4ed8aa4a, 0x5b9cca4f, 0x682e6ff3,
   0x748f82ee, 0x78a5636f, 0x84c87814, 0x8cc70208, 0x90befffa, 0xa4506ceb, 0xbef9a3f7, 0xc67178f2]

def rotateRight (word : UInt32) (count : UInt32) : UInt32 :=
  (word >>> count) ||| (word <<< (32 - count))

/-- The bytes of a word, most significant first. -/
def wordBytes (word : UInt32) : Bytes :=
  [(word >>> 24).toUInt8, (word >>> 16).toUInt8, (word >>> 8).toUInt8, word.toUInt8]

/-- The words of a byte string, most significant byte first. -/
def words : Bytes → List UInt32
  | b0 :: b1 :: b2 :: b3 :: rest =>
    ((b0.toUInt32 <<< 24) ||| (b1.toUInt32 <<< 16) ||| (b2.toUInt32 <<< 8) ||| b3.toUInt32) ::
      words rest
  | _ => []

/-- One more word of the schedule, from the words 16, 15, 7 and 2 places back. -/
def extend (schedule : Array UInt32) : Array UInt32 :=
  let back (places : Nat) : UInt32 := schedule.getD (schedule.size - places) 0
  let w15 := back 15
  let w2 := back 2
  let s0 := rotateRight w15 7 ^^^ rotateRight w15 18 ^^^ (w15 >>> 3)
  let s1 := rotateRight w2 17 ^^^ rotateRight w2 19 ^^^ (w2 >>> 10)
  schedule.push (back 16 + s0 + back 7 + s1)

def schedule (block : Bytes) : List UInt32 :=
  (Nat.repeat extend 48 (words block).toArray).toList

/-- One round with a constant and a word of the schedule. -/
def round (chain : Chain) (step : UInt32 × UInt32) : Chain :=
  let s1 := rotateRight chain.e 6 ^^^ rotateRight chain.e 11 ^^^ rotateRight chain.e 25
  let choice := (chain.e &&& chain.f) ^^^ (~~~chain.e &&& chain.g)
  let t1 := chain.h + s1 + choice + step.1 + step.2
  let s0 := rotateRight chain.a 2 ^^^ rotateRight chain.a 13 ^^^ rotateRight chain.a 22
  let majority := (chain.a &&& chain.b) ^^^ (chain.a &&& chain.c) ^^^ (chain.b &&& chain.c)
  ⟨t1 + (s0 + majority), chain.a, chain.b, chain.c, chain.d + t1, chain.e, chain.f, chain.g⟩

/-- The chaining words after one more block. -/
def compress (chain : Chain) (block : Bytes) : Chain :=
  let last := (roundConstants.zip (schedule block)).foldl round chain
  ⟨chain.a + last.a, chain.b + last.b, chain.c + last.c, chain.d + last.d,
    chain.e + last.e, chain.f + last.f, chain.g + last.g, chain.h + last.h⟩

/-- The message with a one bit, zeros, and its length in bits, filling whole blocks. -/
def padded (message : Bytes) : Bytes :=
  let length := message.length
  let gap := (119 - length % 64) % 64
  message ++ 0x80 :: Bytes.zeros gap ++ (Bytes.ofNat 8 (8 * length)).reverse

/-- The chaining words after `count` blocks. -/
def compressBlocks : (count : Nat) → Chain → Bytes → Chain
  | 0, chain, _ => chain
  | count + 1, chain, bytes => compressBlocks count (compress chain (bytes.take 64)) (bytes.drop 64)

def digest (message : Bytes) : Bytes :=
  let source := padded message
  let chain := compressBlocks (source.length / 64) initial source
  [chain.a, chain.b, chain.c, chain.d, chain.e, chain.f, chain.g, chain.h].flatMap wordBytes

theorem length_digest (message : Bytes) : (digest message).length = 32 := rfl

end SlotStore.Sha256
