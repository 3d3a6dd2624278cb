import SlotStore.Proofs.Container.Isolation

/-!
What a view records. The mark that becomes the size of a slot is the furthest end in the log of its
writer. Where bytes were stored it lies within the capacity. A write of nothing stores none, but its
position counts as well, and it may lie anywhere.
-/

namespace SlotStore

namespace SlotWriter

/-- The end of the furthest byte that a log stores. -/
def reach (log : List (Nat × Bytes)) : Nat := furthest (log.filter (·.2 ≠ []))

/-- The furthest position at which a log stores nothing. -/
def idle (log : List (Nat × Bytes)) : Nat := furthest (log.filter (·.2 = []))

theorem furthest_le_iff {log : List (Nat × Bytes)} {bound : Nat} :
    furthest log ≤ bound ↔ ∀ step ∈ log, step.1 + step.2.length ≤ bound := by
  induction log with
  | nil => simp [furthest]
  | cons step rest ih =>
    simp only [furthest, List.map_cons, List.foldr_cons] at ih ⊢
    rw [Nat.max_le, ih, List.forall_mem_cons]

theorem le_furthest {log : List (Nat × Bytes)} {step : Nat × Bytes} (member : step ∈ log) :
    step.1 + step.2.length ≤ furthest log :=
  furthest_le_iff.mp (Nat.le_refl _) step member

theorem furthest_filter_le (log : List (Nat × Bytes)) (keep : Nat × Bytes → Bool) :
    furthest (log.filter keep) ≤ furthest log :=
  furthest_le_iff.mpr fun _ member => le_furthest (List.mem_filter.mp member).1

/-- The furthest end in a log is that of stored bytes, or a position at which nothing was written. -/
theorem furthest_eq (log : List (Nat × Bytes)) : furthest log = max (reach log) (idle log) := by
  refine Nat.le_antisymm (furthest_le_iff.mpr fun step member => ?_)
    (Nat.max_le.mpr ⟨furthest_filter_le log _, furthest_filter_le log _⟩)
  by_cases empty : step.2 = []
  · exact Nat.le_trans (le_furthest (by simp [member, empty])) (Nat.le_max_right _ _)
  · exact Nat.le_trans (le_furthest (by simp [member, empty])) (Nat.le_max_left _ _)

end SlotWriter

namespace Container

open SlotWriter

variable {container : Container} {index : Nat} {writer : SlotWriter}

/-- A writer is closed over its slot, which gets the mark as its size, cut to the capacity. -/
theorem entrySize_view (made : container.writer index = .ok writer) (acts : List WriterAct) :
    (container.view index acts).entrySize index =
      .ok (min (writer.performAll container.file acts).1.highWater writer.region.capacity) := by
  obtain ⟨region, live, rfl⟩ := writer_eq_ok_iff.mp made
  have inside := SlotWriter.inside_performAll ⟨index, region, 0, 0⟩ container.file acts
  unfold view
  simp only [made, closeWriter, inside.index]
  exact (entry_of_live (liveRegion_rewrite live _ _)).1

/-- What a view records is what was stored, as long as no write of nothing goes further. Stored bytes lie
within the capacity, and their positions in the file are words. Where writes of nothing stay within
them, the end of the furthest byte is the mark and becomes the size of the slot, and every position is
a word. Otherwise the furthest write of nothing is the mark, past the capacity if it was made there,
and only the size of the slot is cut; this as far as a file can be positioned. -/
theorem recorded_of_reachable (reached : Reachable container)
    (made : container.writer index = .ok writer) (acts : List WriterAct)
    {log : List (Nat × Bytes)} (logged : writer.log container.file acts = log) :
    (∀ step ∈ log, step.2 ≠ [] → step.1 + step.2.length ≤ writer.region.capacity ∧
        writer.region.offset + step.1 + step.2.length < 2 ^ 64) ∧
      reach log ≤ writer.region.capacity ∧
      (idle log ≤ reach log ∨ writer.region.offset + idle log < 2 ^ 63 →
        (writer.performAll container.file acts).2 = container.file.writeAll
          (log.map fun step => (writer.region.offset + step.1, step.2))) ∧
      (idle log ≤ reach log →
        (writer.performAll container.file acts).1.highWater = reach log ∧
          (container.view index acts).entrySize index = .ok (reach log) ∧
            ∀ step ∈ log, writer.region.offset + step.1 + step.2.length < 2 ^ 64) ∧
      (reach log < idle log → writer.region.offset + idle log < 2 ^ 63 →
        (writer.performAll container.file acts).1.highWater = idle log ∧
          (container.view index acts).entrySize index =
            .ok (min (idle log) writer.region.capacity)) := by
  have done := writer.logged_performAll container.file acts
  have size := entrySize_view made acts
  obtain ⟨region, live, rfl⟩ := writer_eq_ok_iff.mp made
  rw [logged] at done
  have bounded : region.offset + region.capacity < 2 ^ 64 := by
    obtain ⟨_, laid, _⟩ := reached.sound.laid
    have high := (laid.within (laid.mem (liveRegion_eq_ok_iff.mp live).2.2 rfl)).2
    have ended := laid.bounded
    simp only [Span.next, Region.span] at high
    omega
  have within : reach log ≤ region.capacity := by
    refine furthest_le_iff.mpr fun step member => ?_
    obtain ⟨listed, filled⟩ := List.mem_filter.mp member
    exact done.inside step listed (by simpa using filled)
  have mark : (SlotWriter.performAll ⟨index, region, 0, 0⟩ container.file acts).1.highWater =
      max (reach log) (idle log) := by
    rw [done.mark, furthest_eq]
    exact Nat.max_eq_right (Nat.zero_le _)
  rw [mark] at size
  refine ⟨fun step member filled => ?_, within, fun _ => done.stored, fun covered => ?_,
    fun further _ => ?_⟩
  · have inside := done.inside step member filled
    exact ⟨inside, by simp only at inside ⊢; omega⟩
  · rw [Nat.max_eq_left covered] at mark size
    rw [Nat.min_eq_left within] at size
    refine ⟨mark, size, fun step member => ?_⟩
    have most := le_furthest member
    rw [furthest_eq, Nat.max_eq_left covered] at most
    simp only
    omega
  · rw [Nat.max_eq_right (Nat.le_of_lt further)] at mark size
    exact ⟨mark, size⟩

theorem writer_of_first_entry : Reachable ((create {}).newEntry 5).2 ∧
    ((create {}).newEntry 5).2.writer 1 = .ok ⟨1, ⟨0x238, 0, 16⟩, 0, 0⟩ := by
  have live : ((create {}).newEntry 5).2.liveRegion 1 = .ok ⟨0x238, 0, 16⟩ := by decide +kernel
  exact ⟨.step (reachable_create (by decide +kernel)) (.newEntry 5) rfl,
    writer_eq_ok_iff.mpr ⟨_, live, rfl⟩⟩

/-- A write of nothing inside the stored bytes, and one that does not fit as a whole. -/
theorem recorded_of_overlapping_writes : ∃ container writer, Reachable container ∧
    container.writer 1 = .ok writer ∧
      writer.log container.file
        [.write [1, 2, 3], .seek (.fromEnd (-2)), .write [], .write (Bytes.zeros 20)] =
          [(0, [1, 2, 3]), (1, []), (1, Bytes.zeros 15)] ∧
      (container.view 1 [.write [1, 2, 3], .seek (.fromEnd (-2)), .write [],
        .write (Bytes.zeros 20)]).entrySize 1 = .ok 16 := by
  obtain ⟨reached, made⟩ := writer_of_first_entry
  refine ⟨_, _, reached, made, by decide +kernel, ?_⟩
  obtain ⟨_, _, _, covered, _⟩ := recorded_of_reachable reached made
    [.write [1, 2, 3], .seek (.fromEnd (-2)), .write [], .write (Bytes.zeros 20)] rfl
  exact (covered (by decide +kernel)).2.1

/-- After a seek past the capacity a write of nothing is accepted there: no byte was stored, but the
mark is past the capacity and differs from the recorded size. Further out the position in the file is
no word any more. -/
theorem recorded_of_distant_write_fails : ∃ container writer, Reachable container ∧
    container.writer 1 = .ok writer ∧ writer.region.capacity = 16 ∧
      writer.log container.file [.seek (.fromStart 100), .write []] = [(100, [])] ∧
      (writer.performAll container.file [.seek (.fromStart 100), .write []]).1.highWater = 100 ∧
      (container.view 1 [.seek (.fromStart 100), .write []]).entrySize 1 = .ok 16 ∧
      writer.log container.file [.seek (.fromStart (2 ^ 64 - 1)), .write []] =
        [(2 ^ 64 - 1, [])] ∧ 2 ^ 64 ≤ writer.region.offset + (2 ^ 64 - 1) := by
  obtain ⟨reached, made⟩ := writer_of_first_entry
  exact ⟨_, _, reached, made, rfl, by decide +kernel, by decide +kernel, by decide +kernel,
    by decide +kernel, by decide⟩

end Container

end SlotStore
