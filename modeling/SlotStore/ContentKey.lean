import SlotStore.Bytes
import SlotStore.Sha256
import SlotStore.Text.Blank
import SlotStore.Text.Hex
import SlotStore.Text.Quoted

/-!
Content keys: twenty bytes that name a blob, written as forty hexadecimal digits. Reading accepts
digits of either case between white space and says which rule a refused text breaks.
-/

namespace SlotStore

structure ContentKey where
  bytes : Bytes
  length_eq : bytes.length = 20

namespace ContentKey

def width : Nat := 20

theorem ext {left right : ContentKey} (same : left.bytes = right.bytes) : left = right := by
  cases left; cases right; cases same; rfl

instance : DecidableEq ContentKey := fun left right =>
  if same : left.bytes = right.bytes then isTrue (ext same)
  else isFalse fun equal => same (congrArg bytes equal)

/-- Keys are ordered by their bytes, first byte first. -/
def le (left right : ContentKey) : Bool := decide (left.bytes ≤ right.bytes)

/-- The key whose bytes are the first twenty of a longer byte string. -/
def ofTake (source : Bytes) (enough : 20 ≤ source.length) : ContentKey :=
  ⟨source.take 20, by simp [enough]⟩

/-- The default key of a blob: the first twenty bytes of its SHA-256 digest. -/
def digest (blob : Bytes) : ContentKey :=
  ofTake (Sha256.digest blob) (by rw [Sha256.length_digest]; decide)

def replicate (byte : UInt8) : ContentKey := ⟨List.replicate 20 byte, by simp⟩

/-- A key is written as forty lower-case digits. -/
def text (key : ContentKey) : String := hexText key.bytes

inductive TextFlaw where
  | length (characters : Nat)
  | digit (char : Char)
deriving DecidableEq, Repr

def TextFlaw.message : TextFlaw → String
  | .length characters => s!"content hash must be 40 hex digits, got {characters} characters"
  | .digit char => s!"invalid hex digit {quotedChar char} in content hash"

/-- Bytes from pairs of digits; the first character that is no digit is reported. -/
def bytesOfDigits : List Char → Except TextFlaw Bytes
  | high :: low :: rest =>
    match hexValue? high, hexValue? low with
    | none, _ => .error (.digit high)
    | some _, none => .error (.digit low)
    | some upper, some lower =>
      (bytesOfDigits rest).map (UInt8.ofNat (16 * upper + lower) :: ·)
  | _ => .ok []

theorem length_of_bytesOfDigits {digits : List Char} {bytes : Bytes} (count : Nat)
    (even : digits.length = 2 * count) (read : bytesOfDigits digits = .ok bytes) :
    bytes.length = count := by
  induction count generalizing digits bytes with
  | zero =>
    have empty : digits = [] := List.eq_nil_of_length_eq_zero (by omega)
    subst empty
    cases read
    rfl
  | succ count ih =>
    match digits, even with
    | high :: low :: rest, even =>
      have shorter : rest.length = 2 * count := by simp only [List.length_cons] at even; omega
      unfold bytesOfDigits at read
      split at read
      · cases read
      · cases read
      · cases tail : bytesOfDigits rest with
        | error flaw => rw [tail] at read; cases read
        | ok others =>
          rw [tail] at read
          cases read
          simp [ih shorter tail]

/-- The key of forty digits; a text that is not forty ASCII characters is refused for its length. -/
def ofDigits (digits : List Char) : Except TextFlaw ContentKey :=
  if right : digits.length = 40 ∧ digits.all (·.toNat < 128) = true then
    match read : bytesOfDigits digits with
    | .error flaw => .error flaw
    | .ok bytes => .ok ⟨bytes, length_of_bytesOfDigits 20 right.1 read⟩
  else .error (.length digits.length)

/-- The key that a text names once white space is cut off at both ends. -/
def parse (text : String) : Except TextFlaw ContentKey := ofDigits (trimBlank text.toList)

end ContentKey

end SlotStore
