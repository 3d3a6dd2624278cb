import Mathlib.Algebra.Ring.Int.Defs
import Mathlib.Algebra.Ring.Nat
import SlotStore.Lz4.Decode

/-!
Decoding undoes encoding: every block whose copies reach back into what is there, and whose bytes
fit the limit, is decoded to the bytes that it stands for.
-/

namespace SlotStore.Lz4

theorem toNat_ofNat_byte {value : Nat} (small : value < 256) : (UInt8.ofNat value).toNat = value :=
  UInt8.toNat_ofNat_of_lt small

theorem readExtension_extension (length : Nat) (rest : Bytes) :
    readExtension (extension length ++ rest) = .ok (length, rest) := by
  have whole : 255 * (length / 255) + length % 255 = length := Nat.div_add_mod length 255
  unfold extension
  generalize length / 255 = full at whole ⊢
  induction full generalizing length with
  | zero =>
    have small : length % 255 < 255 := Nat.mod_lt _ (by decide)
    have byte : (UInt8.ofNat (length % 255)).toNat = length % 255 := toNat_ofNat_byte (by omega)
    have plain : UInt8.ofNat (length % 255) ≠ 255 := by
      intro same
      rw [same] at byte
      have top : (255 : UInt8).toNat = 255 := rfl
      omega
    simp only [List.replicate_zero, List.nil_append, List.cons_append, readExtension]
    rw [if_neg plain, byte]
    congr 2
    omega
  | succ full ih =>
    have lower : 255 * full + (length - 255) % 255 = length - 255 := by omega
    have same : (length - 255) % 255 = length % 255 := by omega
    have later := ih (length - 255) lower
    rw [same] at later
    have total : 255 + (length - 255) = length := by omega
    simp only [List.replicate_succ, List.cons_append, readExtension, if_true, later, total]

theorem readLength_overflowBytes (length : Nat) (rest : Bytes) :
    readLength (min length 15) (overflowBytes length ++ rest) = .ok (length, rest) := by
  unfold readLength overflowBytes
  by_cases short : length < 15
  · rw [if_pos (by omega), if_pos short, Nat.min_eq_left (by omega)]
    rfl
  · rw [if_neg (by omega), if_neg short, readExtension_extension]
    simp only
    congr 2
    omega

theorem token_high (literals copy : Nat) : (token literals copy).toNat / 16 = min literals 15 := by
  rw [token, toNat_ofNat_byte (by omega)]
  omega

theorem token_low (literals copy : Nat) : (token literals copy).toNat % 16 = min copy 15 := by
  rw [token, toNat_ofNat_byte (by omega)]
  omega

@[simp] theorem size_copyBack (output : Array UInt8) (offset length : Nat) :
    (copyBack output offset length).size = output.size + length := by
  induction length generalizing output with
  | zero => rfl
  | succ length ih =>
    rw [copyBack, ih, Array.size_push]
    omega

@[simp] theorem size_append_bytes (output : Array UInt8) (bytes : Bytes) :
    (output ++ bytes).size = output.size + bytes.length := by
  rw [← Array.length_toList, Array.toList_appendList, List.length_append, Array.length_toList]

@[simp] theorem Sequence.size_expand (sequence : Sequence) (output : Array UInt8) :
    (sequence.expand output).size = output.size + sequence.literals.length + sequence.length := by
  simp [expand]

section

variable {first : UInt8} {behind rest : Bytes} {count : Nat} {output : Array UInt8}

theorem decodeFrom_of_last (limit : Nat)
    (read : readLength (first.toNat / 16) behind = .ok (count, rest))
    (held : count = rest.length) :
    decodeFrom limit (first :: behind) output =
      if limit < output.size + count then .error (.outputTooSmall limit (output.size + count))
      else .ok (output ++ rest) := by
  subst held
  rw [decodeFrom]
  split
  · rename_i flaw failed
    cases read.symm.trans failed
  · rename_i found
    cases read.symm.trans found
    simp only [List.take_length, Nat.lt_irrefl, if_false]
    have none := List.drop_length (l := rest)
    split
    · rfl
    · split
      · rfl
      · rename_i single
        cases none.symm.trans single
      · rename_i spelled
        cases none.symm.trans spelled

theorem decodeFrom_of_copy (limit : Nat)
    (read : readLength (first.toNat / 16) behind = .ok (count, rest))
    (held : count ≤ rest.length) {low high : UInt8} {after next : Bytes} {stored : Nat}
    (distance : rest.drop count = low :: high :: after)
    (copied : readLength (first.toNat % 16) after = .ok (stored, next))
    (back : low.toNat + 256 * high.toNat ≠ 0)
    (reaches : low.toNat + 256 * high.toNat ≤ output.size + count) :
    decodeFrom limit (first :: behind) output =
      if limit < output.size + count then .error (.outputTooSmall limit (output.size + count))
      else if limit < output.size + count + (stored + shortestCopy) then
        .error (.outputTooSmall limit (output.size + count + (stored + shortestCopy)))
      else decodeFrom limit next (copyBack (output ++ rest.take count)
        (low.toNat + 256 * high.toNat) (stored + shortestCopy)) := by
  have length : (rest.take count).length = count := List.length_take_of_le held
  rw [decodeFrom]
  split
  · rename_i flaw failed
    cases read.symm.trans failed
  · rename_i found
    cases read.symm.trans found
    simp only [length, Nat.lt_irrefl, if_false, size_append_bytes]
    split
    · rfl
    · split
      · rename_i empty
        cases distance.symm.trans empty
      · rename_i single
        cases distance.symm.trans single
      · rename_i spelled
        cases distance.symm.trans spelled
        rw [if_neg back]
        split
        · rename_i failed
          cases copied.symm.trans failed
        · rename_i again
          cases copied.symm.trans again
          split
          · rfl
          · rw [if_neg (by omega)]

end

/-- A sequence that can be decoded behind some output: its copy is long enough to be stored, reaches
back into what is there, and ends within the limit. -/
structure Sequence.Legal (sequence : Sequence) (limit : Nat) (output : Array UInt8) : Prop where
  long : shortestCopy ≤ sequence.length
  back : 0 < sequence.offset
  near : sequence.offset < 65536
  reaches : sequence.offset ≤ output.size + sequence.literals.length
  fits : (sequence.expand output).size ≤ limit

/-- Each sequence is legal behind the output of those before it. -/
def AllLegal (limit : Nat) : (output : Array UInt8) → List Sequence → Prop
  | _, [] => True
  | output, sequence :: rest =>
    sequence.Legal limit output ∧ AllLegal limit (sequence.expand output) rest

theorem decodeFrom_sequence {sequence : Sequence} {limit : Nat} {output : Array UInt8}
    (legal : sequence.Legal limit output) (rest : Bytes) :
    decodeFrom limit (sequence.encode ++ rest) output =
      decodeFrom limit rest (sequence.expand output) := by
  obtain ⟨long, back, near, reaches, fits⟩ := legal
  rw [Sequence.size_expand] at fits
  have low : (UInt8.ofNat sequence.offset).toNat = sequence.offset % 256 := rfl
  have high : (UInt8.ofNat (sequence.offset / 256)).toNat = sequence.offset / 256 :=
    toNat_ofNat_byte (by omega)
  have offset : (UInt8.ofNat sequence.offset).toNat +
      256 * (UInt8.ofNat (sequence.offset / 256)).toNat = sequence.offset := by
    rw [low, high, Nat.mod_add_div]
  have stored : sequence.length - shortestCopy + shortestCopy = sequence.length :=
    Nat.sub_add_cancel long
  have spelled : sequence.encode ++ rest =
      token sequence.literals.length (sequence.length - shortestCopy) ::
        (overflowBytes sequence.literals.length ++ (sequence.literals ++
          (UInt8.ofNat sequence.offset :: UInt8.ofNat (sequence.offset / 256) ::
            (overflowBytes (sequence.length - shortestCopy) ++ rest)))) := by
    simp [Sequence.encode, Bytes.ofNat]
  rw [spelled, decodeFrom_of_copy limit (by rw [token_high, readLength_overflowBytes]) (by simp)
    List.drop_left (by rw [token_low, readLength_overflowBytes]) (by omega) (by omega), offset,
    stored, List.take_left, if_neg (by omega), if_neg (by omega)]
  rfl

theorem decodeFrom_last {limit : Nat} {output : Array UInt8} {last : Bytes}
    (fits : output.size + last.length ≤ limit) :
    decodeFrom limit (token last.length 0 :: overflowBytes last.length ++ last) output =
      .ok (output ++ last) := by
  rw [List.cons_append, decodeFrom_of_last limit (by rw [token_high, readLength_overflowBytes]) rfl,
    if_neg (by omega)]

/-- The output of several sequences, one after another. -/
def expandAll (output : Array UInt8) (sequences : List Sequence) : Array UInt8 :=
  sequences.foldl (fun output sequence => sequence.expand output) output

theorem decodeFrom_sequences {limit : Nat} {output : Array UInt8} {sequences : List Sequence}
    (legal : AllLegal limit output sequences) (rest : Bytes) :
    decodeFrom limit (sequences.flatMap Sequence.encode ++ rest) output =
      decodeFrom limit rest (expandAll output sequences) := by
  induction sequences generalizing output with
  | nil => rfl
  | cons sequence others ih =>
    rw [List.flatMap_cons, List.append_assoc, decodeFrom_sequence legal.1, ih legal.2]
    rfl

theorem decode_encode {limit : Nat} {block : Block} (legal : AllLegal limit #[] block.sequences)
    (fits : block.expand.length ≤ limit) : decode limit block.encode = .ok block.expand := by
  have room : (expandAll #[] block.sequences).size + block.last.length ≤ limit := by
    simpa [Block.expand, expandAll] using fits
  rw [decode, Block.encode, List.append_assoc, decodeFrom_sequences legal, decodeFrom_last room]
  simp only [Except.map, Array.toList_appendList]
  rfl

end SlotStore.Lz4
