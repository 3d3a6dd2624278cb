import SlotStore.Proofs.Compression

/-!
Decoding under a limit. A block that is decoded under one limit is decoded to the same bytes under
every limit that they fit, and refused as too long under every other. So the compressed form of a blob
is expanded only where the length of the blob is asked for.
-/

namespace SlotStore

namespace Lz4

/-- Where decoding goes on to succeed under some limit, another limit decides no more than whether
there is room for the result. -/
theorem decodeFrom_of_limit {limit : Nat} {input : Bytes} {output result : Array UInt8}
    (decoded : decodeFrom limit input output = .ok result) (other : Nat) :
    output.size ≤ result.size ∧
      (result.size ≤ other → decodeFrom other input output = .ok result) ∧
      (other < result.size → ∃ needed, other < needed ∧ needed ≤ result.size ∧
        decodeFrom other input output = .error (.outputTooSmall other needed)) := by
  fun_induction decodeFrom limit input output with
  | case5 output first behind count rest read literals whole room grown ended =>
    have held : count = rest.length := by
      have short := List.drop_eq_nil_iff.mp ended
      simp only [literals, List.length_take] at whole
      omega
    have all : literals = rest := List.take_of_length_le (Nat.le_of_eq held.symm)
    have size : grown.size = output.size + count := by
      rw [size_append_bytes, all, held]
    rw [← Except.ok.inj decoded, decodeFrom_of_last other read held, ← all, ← size]
    refine ⟨by omega, fun fits => if_neg (by omega), fun short => ?_⟩
    exact ⟨grown.size, short, Nat.le_refl _, if_pos short⟩
  | case11 output first behind count rest read literals whole room grown low high after distance
      offset back stored next copied length fits reaches ih =>
    have held : count ≤ rest.length := by
      simp only [literals, List.length_take] at whole
      omega
    have size : grown.size = output.size + count := by
      rw [size_append_bytes, List.length_take_of_le held]
    obtain ⟨longer, enough, short⟩ := ih decoded
    rw [size_copyBack] at longer
    rw [decodeFrom_of_copy other read held distance copied back (by omega), ← size]
    refine ⟨by omega, fun fits => ?_, fun less => ?_⟩
    · rw [if_neg (by omega), if_neg (by omega)]
      exact enough fits
    -- the literals do not fit already, or the copy does not, or something behind them
    · split
      · rename_i early
        exact ⟨grown.size, early, by omega, rfl⟩
      · split
        · rename_i early
          exact ⟨grown.size + length, early, longer, rfl⟩
        · exact short less
  | _ => cases decoded

/-- A block that stands for a byte string under some limit does so under every limit that is long
enough, and is refused under every other. -/
theorem decode_of_limit {limit : Nat} {input bytes : Bytes}
    (decoded : decode limit input = .ok bytes) (other : Nat) :
    (bytes.length ≤ other → decode other input = .ok bytes) ∧
      (other < bytes.length → ∃ needed, other < needed ∧ needed ≤ bytes.length ∧
        decode other input = .error (.outputTooSmall other needed)) := by
  unfold decode at decoded
  cases found : decodeFrom limit input #[] with
  | error flaw =>
    rw [found] at decoded
    cases decoded
  | ok result =>
    rw [found] at decoded
    cases decoded
    obtain ⟨_, enough, short⟩ := decodeFrom_of_limit found other
    unfold decode
    refine ⟨fun fits => by rw [enough fits]; rfl, fun less => ?_⟩
    obtain ⟨needed, beyond, within, failed⟩ := short less
    exact ⟨needed, beyond, within, by rw [failed]; rfl⟩

end Lz4

namespace CompressionMethod

/-- A blob is given back by the method that stored it, given its length. Its compressed form is
expanded under no other length: under a longer one the blob is found to be too short, under a shorter
one the decoder stops where there is no room any more. -/
theorem expansion_of_length (method : CompressionMethod) (blob : Bytes) (length : Nat) :
    method.decompress (method.compress blob) blob.length = .ok blob ∧
      (length = blob.length ∧ lz4.decompress (lz4.compress blob) length = .ok blob ∨
        blob.length < length ∧
          lz4.decompress (lz4.compress blob) length = .error (.length length blob.length) ∨
        length < blob.length ∧ ∃ needed, length < needed ∧ needed ≤ blob.length ∧
          lz4.decompress (lz4.compress blob) length =
            .error (.block (.outputTooSmall length needed))) := by
  have whole : lz4.decompress (lz4.compress blob) blob.length = .ok blob :=
    decompress_compress blob
  obtain ⟨enough, short⟩ := Lz4.decode_of_limit (Lz4.decode_compress blob) length
  constructor
  · cases method with
    | plain => rfl
    | lz4 => exact whole
  · rcases Nat.lt_trichotomy length blob.length with less | rfl | more
    · obtain ⟨needed, beyond, within, failed⟩ := short less
      refine Or.inr (Or.inr ⟨less, needed, beyond, within, ?_⟩)
      simp only [decompress, compress, failed]
    · exact Or.inl ⟨rfl, whole⟩
    · refine Or.inr (Or.inl ⟨more, ?_⟩)
      simp only [decompress, compress, enough (Nat.le_of_lt more)]
      exact if_neg (Nat.ne_of_lt more)

end CompressionMethod

end SlotStore
