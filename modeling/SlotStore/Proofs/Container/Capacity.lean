import Mathlib.Order.Bounds.Basic
import SlotStore.Proofs.Container.Flush
import SlotStore.Proofs.Container.Words

/-!
Rounding a request up to a capacity. What is granted is the least multiple of the granule with room for
the request and for one byte at least, and it is granted just where such a multiple is a signed word,
so that its guard words can say it. In words of 64 bits, with the low bits cleared by a mask, the
rounding is the same.
-/

namespace SlotStore

variable {requested capacity : Nat}

/-- The multiples of the granule with room for a request, and for one byte at least. -/
def capacitiesFor (requested : Nat) : Set Nat :=
  {capacity | granule ∣ capacity ∧ max requested 1 ≤ capacity}

/-- A request rounded up, whether a signed word can hold that or not. -/
def roundedUp (requested : Nat) : Nat := (max requested 1 + (granule - 1)) / granule * granule

theorem roundedUp_bounds (requested : Nat) :
    max requested 1 ≤ roundedUp requested ∧ roundedUp requested < max requested 1 + granule := by
  simp only [roundedUp, granule]
  omega

theorem isLeast_roundedUp (requested : Nat) :
    IsLeast (capacitiesFor requested) (roundedUp requested) := by
  refine ⟨⟨Nat.dvd_mul_left .., (roundedUp_bounds requested).1⟩, ?_⟩
  rintro other ⟨⟨count, rfl⟩, room⟩
  simp only [roundedUp, granule] at room ⊢
  omega

/-- The sum is a word wherever the capacity is a signed one, so the second test decides. -/
theorem alignedCapacity_eq (requested : Nat) : alignedCapacity requested =
    if roundedUp requested < 2 ^ 63 then .ok (roundedUp requested)
    else .error (.overflow (.capacity requested)) := by
  have bounds := roundedUp_bounds requested
  have word : roundedUp requested < 2 ^ 63 → max requested 1 + (granule - 1) < 2 ^ 64 := by
    simp only [granule]
    omega
  exact if_congr ⟨fun tests => tests.2, fun small => ⟨word small, small⟩⟩ rfl rfl

theorem alignedCapacity_ok_iff : alignedCapacity requested = .ok capacity ↔
    IsLeast (capacitiesFor requested) capacity ∧ capacity < 2 ^ 63 := by
  have rounded := isLeast_roundedUp requested
  rw [alignedCapacity_eq]
  constructor
  · intro granted
    split at granted
    · rename_i small
      cases granted
      exact ⟨rounded, small⟩
    · cases granted
  · rintro ⟨least, small⟩
    rw [least.unique rounded] at small ⊢
    exact if_pos small

theorem exists_signed_iff :
    (∃ capacity ∈ capacitiesFor requested, capacity < 2 ^ 63) ↔ roundedUp requested < 2 ^ 63 := by
  have rounded := isLeast_roundedUp requested
  constructor
  · rintro ⟨other, room, small⟩
    exact Nat.lt_of_le_of_lt (rounded.2 room) small
  · exact fun small => ⟨_, rounded.1, small⟩

theorem exists_alignedCapacity_iff : (∃ capacity, alignedCapacity requested = .ok capacity) ↔
    ∃ capacity ∈ capacitiesFor requested, capacity < 2 ^ 63 := by
  rw [exists_signed_iff, alignedCapacity_eq]
  split
  · rename_i small
    exact iff_of_true ⟨_, rfl⟩ small
  · rename_i large
    exact iff_of_false nofun large

theorem alignedCapacity_of_none
    (none : ¬ ∃ capacity ∈ capacitiesFor requested, capacity < 2 ^ 63) :
    alignedCapacity requested = .error (.overflow (.capacity requested)) := by
  rw [exists_signed_iff] at none
  rw [alignedCapacity_eq, if_neg none]

theorem exists_le_of_alignedCapacity {smaller : Nat} (below : smaller ≤ requested)
    (granted : alignedCapacity requested = .ok capacity) :
    ∃ lower, alignedCapacity smaller = .ok lower ∧ lower ≤ capacity := by
  obtain ⟨⟨⟨whole, room⟩, _⟩, small⟩ := alignedCapacity_ok_iff.mp granted
  have rounded := isLeast_roundedUp smaller
  have above := rounded.2 ⟨whole, Nat.le_trans (by omega) room⟩
  exact ⟨_, alignedCapacity_ok_iff.mpr ⟨rounded, Nat.lt_of_le_of_lt above small⟩, above⟩

theorem alignedCapacity_of_granted (granted : alignedCapacity requested = .ok capacity) :
    alignedCapacity capacity = .ok capacity := by
  obtain ⟨⟨⟨whole, room⟩, _⟩, small⟩ := alignedCapacity_ok_iff.mp granted
  refine alignedCapacity_ok_iff.mpr ⟨⟨⟨whole, by omega⟩, ?_⟩, small⟩
  exact fun other ⟨_, above⟩ => Nat.le_trans (Nat.le_max_left ..) above

/-- A guard word around so many bytes: a signed word with the capacity as its magnitude, which a file
gives back as it was written. -/
structure Signs (guard : Int) (capacity : Nat) : Prop where
  nonzero : guard ≠ 0
  signed : -2 ^ 63 ≤ guard ∧ guard < 2 ^ 63
  magnitude : guard.natAbs = capacity
  kept : ∀ (file : File) (pos : Nat), (file.writeInt pos guard).intAt pos = guard

theorem signs_of_natAbs {guard : Int} (positive : 0 < capacity) (small : capacity < 2 ^ 63)
    (magnitude : guard.natAbs = capacity) : Signs guard capacity where
  nonzero := by omega
  signed := by omega
  magnitude := magnitude
  kept := fun file pos =>
    File.intAt_of_slice (File.slice_write_self file pos (Bytes.ofInt guard)) (by omega) (by omega)

/-- Around a region of a capacity that was granted stand the capacity, or its negation. -/
theorem guardWord_of_granted (granted : alignedCapacity requested = .ok capacity) {region : Region}
    (sized : region.capacity = capacity) (deletable : Bool) :
    ((SlotState.live region).guardWord = some (capacity : Int) ∧ Signs capacity capacity) ∧
      (SlotState.free region deletable).guardWord = some (-capacity : Int) ∧
        Signs (-capacity) capacity := by
  subst sized
  have legal := (legal_of_alignedCapacity granted region.offset).2
  have positive := legal.1
  have small := legal.2.2
  exact ⟨⟨SlotState.guardWord_live_of_legal legal, signs_of_natAbs positive small (by omega)⟩,
    SlotState.guardWord_free_of_legal deletable legal, signs_of_natAbs positive small (by omega)⟩

/-- Clearing the four low bits of a word rounds it down to a multiple of the granule. -/
theorem toNat_mask (word : UInt64) : (word &&& ~~~15).toNat = word.toNat / granule * granule := by
  have mask : (~~~15 : UInt64).toNat = 2 ^ 64 - ((2 ^ 4 - 1) + 1) := rfl
  have size : granule = 2 ^ 4 := rfl
  rw [UInt64.toNat_and, mask, size]
  apply Nat.eq_of_testBit_eq
  intro bit
  rw [Nat.testBit_and, Nat.testBit_two_pow_sub_succ (by decide), Nat.testBit_two_pow_sub_one,
    Nat.testBit_mul_two_pow, Nat.testBit_div_two_pow]
  by_cases low : bit < 4
  · simp [low, Nat.not_le.mpr low]
  · have high : 4 ≤ bit := Nat.le_of_not_lt low
    by_cases inside : bit < 64
    · simp [low, high, inside]
    · have beyond : 2 ^ 64 ≤ 2 ^ bit := Nat.pow_le_pow_right (by decide) (Nat.le_of_not_lt inside)
      have zero : word.toNat.testBit bit = false :=
        Nat.testBit_lt_two_pow (Nat.lt_of_lt_of_le word.toNat_lt beyond)
      simp [high, inside, zero]

/-- The rounding in words: a sum that is tested, the low bits cleared, and the test for a signed
word. -/
def alignedCapacityInWords (requested : UInt64) : Option UInt64 :=
  (Word.add? (max requested 1).toNat 15).bind fun sum =>
    let capacity := UInt64.ofNat sum &&& ~~~15
    if capacity < 0x8000000000000000 then some capacity else none

theorem alignedCapacityInWords_eq (requested : UInt64) : alignedCapacityInWords requested =
    (alignedCapacity requested.toNat).toOption.map UInt64.ofNat := by
  have least : (max requested 1).toNat = max requested.toNat 1 := UInt64.toNat_max ..
  have bounds := roundedUp_bounds requested.toNat
  rw [alignedCapacityInWords, alignedCapacity_eq, least]
  by_cases word : max requested.toNat 1 + 15 < 2 ^ 64
  · have cleared : (UInt64.ofNat (max requested.toNat 1 + 15) &&& ~~~15).toNat =
        roundedUp requested.toNat := by
      rw [toNat_mask, toNat_word64 word]
      rfl
    have test : UInt64.ofNat (max requested.toNat 1 + 15) &&& ~~~15 < 0x8000000000000000 ↔
        roundedUp requested.toNat < 2 ^ 63 := by
      rw [UInt64.lt_iff_toNat_lt, cleared]
      rfl
    rw [Word.add?_of_lt word, Option.bind_some]
    simp only [test]
    split
    · simp only [Except.toOption, Option.map_some]
      rw [← cleared, UInt64.ofNat_toNat]
    · rfl
  -- where the sum is no word, the capacity would be no signed one
  · rw [Word.add?, if_neg word, if_neg (by omega)]
    rfl

/-- Requests are rounded up to the least capacity, and as far as guard words reach. For every word of 64
bits the answer is the least multiple of sixteen that holds the request and one byte at least, if any
such multiple is a signed word, and otherwise an overflow. Rounding is monotone and changes no capacity
that it has granted; the guard words of that capacity, positive and negative, are signed words other
than zero that say it by their magnitude, and no append refuses it as too large for them. In words of 64
bits nothing is lost: the answer is the same one, refused where it is refused. -/
theorem rounding_of_word (requested : UInt64) :
    (∀ capacity, alignedCapacity requested.toNat = .ok capacity ↔
        IsLeast {multiple | 16 ∣ multiple ∧ max requested.toNat 1 ≤ multiple} capacity ∧
          capacity < 2 ^ 63) ∧
      ((∃ capacity, alignedCapacity requested.toNat = .ok capacity) ↔
        ∃ multiple, 16 ∣ multiple ∧ max requested.toNat 1 ≤ multiple ∧ multiple < 2 ^ 63) ∧
      ((¬ ∃ multiple, 16 ∣ multiple ∧ max requested.toNat 1 ≤ multiple ∧ multiple < 2 ^ 63) →
        alignedCapacity requested.toNat = .error (.overflow (.capacity requested.toNat))) ∧
      (∀ capacity, alignedCapacity requested.toNat = .ok capacity →
        max requested.toNat 1 ≤ capacity ∧ capacity < max requested.toNat 1 + 16 ∧
          alignedCapacity capacity = .ok capacity ∧
          (∀ smaller ≤ requested, ∃ lower, alignedCapacity smaller.toNat = .ok lower ∧
            lower ≤ capacity) ∧
          (∀ (region : Region) (deletable : Bool), region.capacity = capacity →
            ((SlotState.live region).guardWord = some (capacity : Int) ∧ Signs capacity capacity) ∧
              (SlotState.free region deletable).guardWord = some (-capacity : Int) ∧
                Signs (-capacity) capacity) ∧
          ∀ container : Container, container.endOfFile + capacity + 16 < 2 ^ 64 →
            container.appendRegion capacity =
              (.ok ⟨container.endOfFile, 0, capacity⟩, container.extended capacity)) ∧
      alignedCapacityInWords requested =
        (alignedCapacity requested.toNat).toOption.map UInt64.ofNat := by
  have listed : (∃ multiple, 16 ∣ multiple ∧ max requested.toNat 1 ≤ multiple ∧ multiple < 2 ^ 63) ↔
      ∃ capacity ∈ capacitiesFor requested.toNat, capacity < 2 ^ 63 := by
    simp only [capacitiesFor, Set.mem_ofPred_eq, granule, and_assoc]
  rw [listed]
  refine ⟨fun capacity => alignedCapacity_ok_iff, exists_alignedCapacity_iff,
    alignedCapacity_of_none, fun capacity granted => ?_, alignedCapacityInWords_eq requested⟩
  obtain ⟨least, small⟩ := alignedCapacity_ok_iff.mp granted
  have bounds := roundedUp_bounds requested.toNat
  rw [(isLeast_roundedUp requested.toNat).unique least] at bounds
  refine ⟨bounds.1, bounds.2, alignedCapacity_of_granted granted, fun smaller below => ?_,
    fun region deletable sized => guardWord_of_granted granted sized deletable,
    fun container bounded => Container.appendRegion_of_bounded small bounded⟩
  exact exists_le_of_alignedCapacity (UInt64.le_iff_toNat_le.mp below) granted

/-- The largest capacity is granted to the sixteen requests below it, and its negation is a guard word;
one byte more is refused. -/
theorem rounding_of_largest_capacity : alignedCapacity (2 ^ 63 - 31) = .ok (2 ^ 63 - 16) ∧
    alignedCapacity (2 ^ 63 - 16) = .ok (2 ^ 63 - 16) ∧
      (SlotState.free ⟨0x238, 0, 2 ^ 63 - 16⟩ true).guardWord = some (-(2 ^ 63 - 16)) ∧
        Signs (-(2 ^ 63 - 16)) (2 ^ 63 - 16) ∧
          alignedCapacity (2 ^ 63 - 15) = .error (.overflow (.capacity (2 ^ 63 - 15))) := by
  have granted : alignedCapacity (2 ^ 63 - 31) = .ok (2 ^ 63 - 16) := by decide +kernel
  have least : (9223372036854775777 : UInt64).toNat = 2 ^ 63 - 31 := by decide +kernel
  obtain ⟨_, _, _, grants, _⟩ := rounding_of_word 9223372036854775777
  rw [least] at grants
  obtain ⟨_, _, again, _, signs, _⟩ := grants _ granted
  obtain ⟨_, word, negative⟩ := signs ⟨0x238, 0, 2 ^ 63 - 16⟩ true rfl
  have large : (9223372036854775793 : UInt64).toNat = 2 ^ 63 - 15 := by decide +kernel
  obtain ⟨_, _, refuses, _⟩ := rounding_of_word 9223372036854775793
  rw [large] at refuses
  refine ⟨granted, again, word, negative, refuses ?_⟩
  rintro ⟨multiple, whole, room, small⟩
  omega

end SlotStore
