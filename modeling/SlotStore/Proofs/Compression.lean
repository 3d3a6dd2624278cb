import SlotStore.Compression
import SlotStore.Proofs.Lz4.RoundTrip
import SlotStore.Proofs.Rounding

/-!
Stored forms of blobs. A form that is not the blob itself is shorter than the blob, so the stored
length tells how to read it.
-/

namespace SlotStore

/-- The blob itself, or its compressed form where that is shorter. -/
def StandsFor (stored blob : Bytes) : Prop :=
  stored = blob ∨ stored = Lz4.compress blob ∧ stored.length < blob.length

/-- Compression is chosen only where it makes a blob shorter, under any settings in range. -/
theorem packBlob_cases {settings : CompressionSettings} (legal : settings.check = .ok ())
    (blob : Bytes) : packBlob settings blob = (blob, .plain) ∨
      packBlob settings blob = (Lz4.compress blob, .lz4) ∧
        (Lz4.compress blob).length < blob.length := by
  have range : settings.minRatio.within 0 1 = true := by
    unfold CompressionSettings.check at legal
    split at legal
    · cases legal
    · rename_i inside
      simpa using inside
  unfold packBlob
  split
  · exact Or.inl rfl
  · rename_i tried
    simp only
    split
    · rename_i below
      have filled : 0 < blob.length := by
        refine List.length_pos_iff.mpr fun empty => tried ?_
        exact Or.inr (Or.inl empty)
      exact Or.inr ⟨rfl, Binary.lt_of_ratio32_lt filled range below⟩
    · exact Or.inl rfl

theorem standsFor_packBlob {settings : CompressionSettings} (legal : settings.check = .ok ())
    (blob : Bytes) : StandsFor (packBlob settings blob).1 blob := by
  rcases packBlob_cases legal blob with plain | ⟨packed, shorter⟩
  · exact Or.inl (by rw [plain])
  · exact Or.inr (by rw [packed]; exact ⟨rfl, shorter⟩)

theorem length_packBlob_ne_iff {settings : CompressionSettings} (legal : settings.check = .ok ())
    (blob : Bytes) :
    (packBlob settings blob).1.length ≠ blob.length ↔ (packBlob settings blob).2 = .lz4 := by
  rcases packBlob_cases legal blob with plain | ⟨packed, shorter⟩
  · simp [plain]
  · simp [packed, Nat.ne_of_lt shorter]

theorem decompress_compress (blob : Bytes) :
    CompressionMethod.lz4.decompress (Lz4.compress blob) blob.length = .ok blob := by
  simp [CompressionMethod.decompress, Lz4.decode_compress]

theorem decompress_packBlob {settings : CompressionSettings} (legal : settings.check = .ok ())
    (blob : Bytes) :
    (packBlob settings blob).2.decompress (packBlob settings blob).1 blob.length = .ok blob := by
  rcases packBlob_cases legal blob with plain | ⟨packed, _⟩
  · rw [plain]
    rfl
  · rw [packed]
    exact decompress_compress blob

theorem StandsFor.read {stored blob : Bytes} (stands : StandsFor stored blob) :
    (if stored.length = blob.length then .ok stored
      else CompressionMethod.lz4.decompress stored blob.length) = .ok blob := by
  rcases stands with rfl | ⟨rfl, shorter⟩
  · rw [if_pos rfl]
  · rw [if_neg (Nat.ne_of_lt shorter), decompress_compress]

end SlotStore
