import SlotStore.Fault
import SlotStore.Lz4.Block

/-!
Decoding of a stored block into at most `limit` bytes. Each way in which a block can be wrong has
its own flaw; the first one met is reported.
-/

namespace SlotStore.Lz4

/-- The sum of bytes up to the first that is not 255, and what follows it. -/
def readExtension : Bytes → Except BlockFlaw (Nat × Bytes)
  | [] => .error .byteMissing
  | byte :: rest =>
    if byte = 255 then
      match readExtension rest with
      | .error flaw => .error flaw
      | .ok (more, rest) => .ok (255 + more, rest)
    else .ok (byte.toNat, rest)

def readLength (nibble : Nat) (input : Bytes) : Except BlockFlaw (Nat × Bytes) :=
  if nibble < 15 then .ok (nibble, input)
  else
    match readExtension input with
    | .error flaw => .error flaw
    | .ok (more, rest) => .ok (15 + more, rest)

theorem length_of_readExtension {input rest : Bytes} {length : Nat}
    (read : readExtension input = .ok (length, rest)) : rest.length < input.length := by
  induction input generalizing length with
  | nil => cases read
  | cons byte tail ih =>
    unfold readExtension at read
    split at read
    · split at read
      · cases read
      · rename_i more others inner
        cases read
        have shorter := ih inner
        simp only [List.length_cons]
        omega
    · cases read
      simp

theorem length_of_readLength {nibble : Nat} {input rest : Bytes} {length : Nat}
    (read : readLength nibble input = .ok (length, rest)) : rest.length ≤ input.length := by
  unfold readLength at read
  split at read
  · cases read
    exact Nat.le_refl _
  · split at read
    · cases read
    · rename_i more others inner
      cases read
      exact Nat.le_of_lt (length_of_readExtension inner)

/-- Decodes the sequences from a token on, behind what is decoded already. -/
def decodeFrom (limit : Nat) (input : Bytes) (output : Array UInt8) :
    Except BlockFlaw (Array UInt8) :=
  match input with
  | [] => .error .byteMissing
  | first :: behind =>
    match _literalRead : readLength (first.toNat / 16) behind with
    | .error flaw => .error flaw
    | .ok (count, rest) =>
      let literals := rest.take count
      if literals.length < count then .error .literalOutside
      else if limit < output.size + count then
        .error (.outputTooSmall limit (output.size + count))
      else
        let output := output ++ literals
        match _tail : rest.drop count with
        | [] => .ok output
        | [_] => .error .byteMissing
        | low :: high :: after =>
          let offset := low.toNat + 256 * high.toNat
          if offset = 0 then .error .zeroOffset
          else
            match _copyRead : readLength (first.toNat % 16) after with
            | .error flaw => .error flaw
            | .ok (stored, next) =>
              let length := stored + shortestCopy
              if limit < output.size + length then
                .error (.outputTooSmall limit (output.size + length))
              else if output.size < offset then .error .offsetOutside
              else decodeFrom limit next (copyBack output offset length)
termination_by input.length
decreasing_by
  have first_shorter := length_of_readLength _literalRead
  have second_shorter := length_of_readLength _copyRead
  have dropped : (rest.drop count).length = after.length + 2 := by simp [_tail]
  rw [List.length_drop] at dropped
  simp only [List.length_cons]
  omega

def decode (limit : Nat) (input : Bytes) : Except BlockFlaw Bytes :=
  (decodeFrom limit input #[]).map Array.toList

end SlotStore.Lz4
