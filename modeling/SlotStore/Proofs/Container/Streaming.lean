import SlotStore.Proofs.Container.BestFit

/-!
A streamed append equals a plain one. However a producer cuts its bytes and whenever they are flushed,
the stream lays them down in one piece behind the end of the file, and as its guard words lie around
that piece it makes no difference that they are written last. What comes of it is what comes of
appending a region for that many bytes and then writing them.
-/

namespace SlotStore

namespace Container

variable {container : Container}

/-- Bytes that lie behind the end of a file are in the way of no word that appends a region for them. -/
theorem extended_streamed_file (behind : 8 ≤ container.endOfFile) {data : Bytes} {capacity : Nat}
    (fits : data.length ≤ capacity) : ((container.streamed data).extended capacity).file =
      (container.extended capacity).file.write container.endOfFile data := by
  refine File.writeAll_write_comm container.file fun step member => ?_
  simp only [appendWrites, streamed_endOfFile, List.mem_cons, List.not_mem_nil, or_false] at member
  rcases member with rfl | rfl | rfl
  · exact Or.inl (by simp only; omega)
  · exact Or.inl (by simp only; omega)
  · exact Or.inr (by simp only [Bytes.length_ofInt]; omega)

theorem liveRegion_of_acquired (sound : container.Sound) {index : Nat} {slots : SlotTable}
    (taken : container.slots.acquire = .ok (index, slots)) {region : Region} {placed : Container}
    (table : placed.tableIndex = container.tableIndex)
    (held : placed.slots = slots.set index (.live region)) :
    placed.liveRegion index = .ok region := by
  have got := SlotTable.acquired sound.filled taken
  refine liveRegion_eq_ok_iff.mpr ⟨Nat.ne_of_gt got.pos, ?_, ?_⟩
  · rw [table]
    intro reserved
    obtain ⟨own, live⟩ := sound.table index reserved
    exact got.fresh index _ live (by simp) rfl
  · rw [held, SlotTable.getElem?_set_acquired taken, if_pos rfl]

/-- A region that was appended for bytes and got an index gets it also where the bytes were streamed,
and they come to lie there as if they had been written to it. -/
theorem write_placed (sound : container.Sound) {data : Bytes} {capacity index : Nat}
    (fits : data.length ≤ capacity) {slots : SlotTable}
    (taken : container.slots.acquire = .ok (index, slots)) : ∃ placed final,
      (container.extended capacity).placeRegion ⟨container.endOfFile, 0, capacity⟩ =
        (.ok index, placed) ∧
      ((container.streamed data).extended capacity).placeRegion
        ⟨container.endOfFile, data.length, capacity⟩ = (.ok index, final) ∧
      placed.write index data 0 = (.ok (), final) ∧
        final.liveRegion index = .ok ⟨container.endOfFile, data.length, capacity⟩ ∧
          final.file = ((container.streamed data).extended capacity).file ∧
            final.endOfFile = container.endOfFile + capacity + 16 := by
  obtain ⟨placed, filled⟩ : ∃ placed : Container, { container.extended capacity with
      slots := slots.set index (.live ⟨container.endOfFile, 0, capacity⟩)
      dirty := true } = placed := ⟨_, rfl⟩
  have made := (container.extended capacity).placeRegion_of_acquired
    (by rw [extended_slots, taken]) ⟨container.endOfFile, 0, capacity⟩
  have adopted := ((container.streamed data).extended capacity).placeRegion_of_acquired
    (by rw [extended_slots, streamed_slots, taken]) ⟨container.endOfFile, data.length, capacity⟩
  rw [filled] at made
  refine ⟨placed, _, made, adopted, ?_,
    liveRegion_of_acquired sound taken (extended_tableIndex (container.streamed data) capacity) rfl,
    rfl, rfl⟩
  have live : placed.liveRegion index = .ok ⟨container.endOfFile, 0, capacity⟩ := by
    rw [← filled]
    exact liveRegion_of_acquired sound taken (extended_tableIndex container capacity) rfl
  have low := sound.ended.1
  simp only [firstOffset] at low
  have laid := extended_streamed_file (by omega : 8 ≤ container.endOfFile) fits
  have whole : min (max 0 (0 + data.length)) capacity = data.length := by omega
  rw [write_of_fits live (by simpa using fits), rewrite_eq (liveRegion_eq_ok_iff.mp live).2.2,
    ← filled]
  simp only [whole, List.set_set, Nat.add_zero, laid]
  rfl

/-- The words around an appended region, with bytes streamed into it or without. -/
theorem words_of_streamed (sound : container.Sound) (data : Bytes) {capacity : Nat}
    (small : capacity < 2 ^ 63) :
    ((container.streamed data).extended capacity).file.intAt (container.endOfFile - 8) = capacity ∧
      ((container.streamed data).extended capacity).file.intAt (container.endOfFile + capacity) =
        capacity ∧
      ((container.streamed data).extended capacity).file.intAt
        (container.endOfFile + capacity + 8) = 0 := by
  obtain ⟨_, laid, _⟩ := sound.laid
  have low := laid.first_le
  have held : container.endOfFile ≤ (container.streamed data).file.size :=
    Nat.le_trans laid.held (File.size_le_write container.file _ data)
  exact (Laid.appended (container.streamed data).file (Nat.le_trans (by decide) low) held small).2.2

/-- What a streamed append of these bytes leaves behind: the next index has a live slot at the old end
of the file, whose contents they are, and the container is the one that comes of appending a region for
as many bytes, placing it and writing them to it. -/
structure Streamed (container : Container) (data : Bytes) (capacity index : Nat)
    (placed final : Container) : Prop where
  granted : alignedCapacity data.length = .ok capacity
  next : container.slots.NextIndex index
  live : final.slots[index]? = some (.live ⟨container.endOfFile, data.length, capacity⟩)
  contents : final.read index = .ok data
  endOfFile : final.endOfFile = container.endOfFile + capacity + 16
  leading : final.file.intAt (container.endOfFile - 8) = capacity
  trailing : final.file.intAt (container.endOfFile + capacity) = capacity
  terminator : final.file.intAt (container.endOfFile + capacity + 8) = 0
  appended : ∃ region grown, container.appendRegion capacity = (.ok region, grown) ∧
    grown.placeRegion region = (.ok index, placed)
  written : placed.write index data 0 = (.ok (), final)
  allocated : (∀ other, ¬ container.slots.Fits data.length other) →
    container.newEntry data.length = (.ok index, placed)

theorem Sound.withStreamed (sound : container.Sound) (data : Bytes) :
    (container.streamed data).Sound := by
  obtain ⟨_, laid, _⟩ := sound.laid
  exact sound.agree (File.AgreesBelow.write container.file data laid.held (Nat.le_refl _))

theorem Sound.streamed (sound : container.Sound) {data : Bytes} {capacity index : Nat}
    (granted : alignedCapacity data.length = .ok capacity)
    (bounded : container.endOfFile + capacity + 16 < 2 ^ 64) {slots : SlotTable}
    (taken : container.slots.acquire = .ok (index, slots)) : ∃ placed final,
      (container.streamed data).adoptStream data.length = (.ok index, final) ∧
        Streamed container data capacity index placed final := by
  obtain ⟨fits, _, _, small⟩ := legal_of_alignedCapacity granted 0
  obtain ⟨placed, final, made, same, written, live, file, stop⟩ := write_placed sound fits taken
  have adopted : (container.streamed data).adoptStream data.length = (.ok index, final) :=
    (@adoptStream_of_granted (container.streamed data) _ _ granted bounded).trans same
  have soundFinal := (sound.withStreamed data).adoptStream data.length
  rw [adopted] at soundFinal
  obtain ⟨leading, trailing, terminator⟩ := words_of_streamed sound data small
  rw [← file] at leading trailing terminator
  exact ⟨placed, final, adopted, {
    granted, leading, trailing, terminator, written
    next := SlotTable.nextIndex_of_acquire taken
    live := (liveRegion_eq_ok_iff.mp live).2.2
    contents := by
      have low := sound.ended.1
      simp only [firstOffset] at low
      rw [read_of_live soundFinal live, file, extended_streamed_file (by omega) fits]
      exact congrArg Except.ok (File.slice_write_self _ _ data)
    endOfFile := stop
    appended := ⟨_, _, appendRegion_of_bounded small bounded, made⟩
    allocated := fun none => (sound.newEntry_of_not_fits granted bounded none).trans made }⟩

/-- Where every index is in use, what was streamed is refused after its region was appended. -/
theorem adoptStream_of_full {data : Bytes} {capacity : Nat}
    (granted : alignedCapacity data.length = .ok capacity)
    (bounded : container.endOfFile + capacity + 16 < 2 ^ 64)
    (refused : container.slots.acquire = .error (.overflow .slotIndices)) :
    (container.streamed data).adoptStream data.length =
      (.error (.overflow .slotIndices), (container.streamed data).extended capacity) := by
  rw [@adoptStream_of_granted (container.streamed data) _ _ granted bounded,
    placeRegion_of_exhausted _ (by rw [extended_slots, streamed_slots, refused])]

/-- A streamed append equals a plain one. Whatever chunks a producer writes and whenever it flushes
them, if it comes to its end its bytes are streamed into the next index as one piece. The append is
refused only where no capacity is granted within what a word can address, or where every index is in
use. -/
theorem streaming_of_reachable (reached : Reachable container)
    (idle : container.appendInFlight = false) (acts : List AppendAct) {data : Bytes}
    (brought : acts.flatMap AppendAct.bytes = data) :
    (∃ notes capacity index placed final,
      container.appendEntry acts .finish = ((notes, .slot index), final) ∧
        Streamed container data capacity index placed final) ∨
    ∃ notes excess final,
      container.appendEntry acts .finish = ((notes, .failed (.overflow excess)), final) ∧
      ((∀ capacity, alignedCapacity data.length = .ok capacity →
          2 ^ 64 ≤ container.endOfFile + capacity + 16) ∨
        container.slots.length = SlotTable.indexLimit ∧
          ∀ index, 0 < index → container.slots[index]? ≠ some .unused) := by
  have sound := reached.sound
  obtain ⟨notes, outcome⟩ := appendEntry_of_finish idle acts brought
  by_cases possible : ∃ capacity, alignedCapacity data.length = .ok capacity ∧
      container.endOfFile + capacity + 16 < 2 ^ 64
  · obtain ⟨capacity, granted, bounded⟩ := possible
    cases taken : container.slots.acquire with
    | ok pair =>
      obtain ⟨placed, final, adopted, streamed⟩ := sound.streamed granted bounded taken
      rw [adopted] at outcome
      exact Or.inl ⟨notes, capacity, _, placed, final, outcome, streamed⟩
    | error fault =>
      obtain ⟨rfl, used, full⟩ := SlotTable.acquire_error taken
      rw [adoptStream_of_full granted bounded taken] at outcome
      exact Or.inr ⟨notes, _, _, outcome, Or.inr ⟨Nat.le_antisymm sound.limited full,
        fun index => SlotTable.used_of_unusedIndex_none used⟩⟩
  · have refused : ∃ excess, (container.streamed data).adoptStream data.length =
        (.error (.overflow excess), container.streamed data) := by
      refine ((container.streamed data).adoptStream_cases data.length).resolve_right ?_
      rintro ⟨capacity, granted, bounded, _⟩
      exact possible ⟨capacity, granted, bounded⟩
    obtain ⟨excess, refused⟩ := refused
    rw [refused] at outcome
    exact Or.inr ⟨notes, excess, _, outcome, Or.inl fun capacity granted =>
      Nat.le_of_not_lt fun bounded => possible ⟨capacity, granted, bounded⟩⟩

/-- Chunks that just fill a granule between them. -/
def threeChunks : List AppendAct :=
  [.write [1, 2, 3, 4, 5], .flush, .write [], .write [6, 7, 8, 9],
    .write [10, 11, 12, 13, 14, 15, 16], .flush]

/-- Three chunks are streamed over what a producer has left behind that gave up. -/
theorem streaming_of_three_chunks : ∃ container notes final, Reachable container ∧
    container.appendInFlight = false ∧ container.endOfFile = 0x258 ∧
      container.appendEntry threeChunks .finish = ((notes, .slot 2), final) ∧
      final.slots[2]? = some (.live ⟨0x258, 16, 16⟩) ∧
      final.read 2 = .ok [1, 2, 3, 4, 5, 6, 7, 8, 9, 10, 11, 12, 13, 14, 15, 16] := by
  obtain ⟨container, made⟩ : ∃ container, (((create {}).newEntry 5).2.appendEntry
      [.write [255, 255, 255], .flush] (.fail .notFound)).2 = container := ⟨_, rfl⟩
  have reached : Reachable container := by
    have created : Reachable (create {}) := reachable_create (by decide +kernel)
    exact (created.step (.newEntry 5) rfl).step (.append _ _) (congrArg some made)
  have idle : container.appendInFlight = false := by
    rw [← made]
    decide +kernel
  have stop : container.endOfFile = 0x258 := by
    rw [← made]
    decide +kernel
  have answer : (container.appendEntry threeChunks .finish).1.2 = .slot 2 := by
    rw [← made]
    decide +kernel
  rcases streaming_of_reachable reached idle threeChunks rfl with
    ⟨notes, _, _, _, final, appended, streamed⟩ | ⟨_, _, _, refused, _⟩
  · rw [appended] at answer
    cases answer
    have sixteen : alignedCapacity 16 = .ok 16 := by decide +kernel
    cases sixteen.symm.trans streamed.granted
    have live := streamed.live
    rw [stop] at live
    exact ⟨container, notes, final, reached, idle, stop, appended, live, streamed.contents⟩
  · rw [refused] at answer
    cases answer

/-- A producer that comes to its end gets no index where every index is in use. -/
theorem streaming_of_exhausted_indices_fails : ∃ container, Reachable container ∧
    container.appendInFlight = false ∧
      (container.appendEntry [] .finish).1.2 = .failed (.overflow .slotIndices) := by
  have even := @even_allocated 0xffffffff (by decide)
  have refused : (allocated 0xffffffff).slots.acquire = .error (.overflow .slotIndices) := by
    rw [even.slots, SlotTable.acquire, (filled_evenSlots _).unusedIndex?_eq]
    exact if_neg (by rw [length_evenSlots]; decide)
  obtain ⟨notes, outcome⟩ := appendEntry_of_finish even.idle [] rfl
  rw [adoptStream_of_full rfl (even.bounded (by decide)) refused] at outcome
  exact ⟨_, reachable_allocated _, even.idle, congrArg (·.1.2) outcome⟩

end Container

end SlotStore
