import SlotStore.Lz4.Decode
import SlotStore.Lz4.Factor
import SlotStore.Settings

/-!
Compression of blobs. A blob is stored compressed only where that pays off; whether it was is seen
from its stored length, which then differs from the length of the blob.
-/

namespace SlotStore

inductive CompressionMethod where
  | plain
  | lz4
deriving DecidableEq, Repr

namespace CompressionMethod

def ofSettings (settings : CompressionSettings) : CompressionMethod :=
  if settings.enabled then .lz4 else .plain

def compress (method : CompressionMethod) (blob : Bytes) : Bytes :=
  match method with
  | .plain => blob
  | .lz4 => Lz4.compress blob

/-- The blob of a known length that a stored form stands for. -/
def decompress (method : CompressionMethod) (stored : Bytes) (length : Nat) :
    Except ExpansionFlaw Bytes :=
  match method with
  | .plain => .ok stored
  | .lz4 =>
    match Lz4.decode length stored with
    | .error flaw => .error (.block flaw)
    | .ok blob => if blob.length = length then .ok blob else .error (.length length blob.length)

end CompressionMethod

/-- The form in which a blob is stored, and the method that gave it. Short and empty blobs stay
plain, and so does a blob whose compressed share is not below the ratio of the settings. -/
def packBlob (settings : CompressionSettings) (blob : Bytes) : Bytes × CompressionMethod :=
  if settings.enabled = false ∨ blob = [] ∨ blob.length < settings.threshold then (blob, .plain)
  else
    let packed := Lz4.compress blob
    if (Binary.ratio32 packed.length blob.length).lt settings.minRatio then (packed, .lz4)
    else (blob, .plain)

end SlotStore
