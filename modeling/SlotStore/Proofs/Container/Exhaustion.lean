import SlotStore.Proofs.Container.Growing

/-!
The layout of every container that can be reached, and what becomes of it when no slot index is left.
An allocation appends its region before it looks for an index. Where all indices are in use it is
refused, and the region stays in the file without a slot.
-/

namespace SlotStore.Container

/-- A new container after so many allocations of the least size. -/
def allocated : (count : Nat) → Container
  | 0 => create {}
  | count + 1 => ((allocated count).newEntry 0).2

/-- The slots of empty regions of sixteen bytes, one behind the other. -/
def evenSlots (count : Nat) : SlotTable :=
  .unused :: (List.range count).map fun index => .live ⟨firstOffset + 32 * index, 0, 16⟩

theorem evenSlots_succ (count : Nat) :
    evenSlots (count + 1) = evenSlots count ++ [.live ⟨firstOffset + 32 * count, 0, 16⟩] := by
  simp [evenSlots, List.range_succ]

@[simp] theorem length_evenSlots (count : Nat) : (evenSlots count).length = count + 1 := by
  simp [evenSlots]

theorem spans_evenSlots (count : Nat) : (evenSlots count).spans =
    (List.range count).map fun index => ⟨firstOffset + 32 * index, 16⟩ := by
  rw [evenSlots, SlotTable.spans_cons_of_none _ rfl, SlotTable.spans, List.filterMap_map]
  exact congrFun List.filterMap_eq_map _

theorem filled_evenSlots (count : Nat) : (evenSlots count).Filled := by
  refine ⟨(evenSlots count).spans, ?_⟩
  rw [spans_evenSlots, List.map_map, evenSlots, SlotTable.shape, List.map_cons, List.map_map]
  rfl

theorem not_fits_evenSlots (count least index : Nat) : ¬ (evenSlots count).Fits least index := by
  rintro ⟨region, deletable, found, _⟩
  have member := List.mem_of_getElem? found
  simp [evenSlots] at member

/-- Only these slots, and the file ends behind their regions. -/
structure Even (container : Container) (count : Nat) : Prop where
  slots : container.slots = evenSlots count
  endOfFile : container.endOfFile = firstOffset + 32 * count
  tableIndex : container.tableIndex = none
  root : container.root = none
  idle : container.appendInFlight = false
  settings : container.settings = {}

namespace Even

variable {container : Container} {count : Nat}

theorem bounded (even : Even container count) (few : count < SlotTable.indexLimit) :
    container.endOfFile + 16 + 16 < 2 ^ 64 := by
  have stop := even.endOfFile
  simp only [firstOffset, SlotTable.indexLimit] at stop few
  omega

theorem live (even : Even container count) {index : Nat} (inside : index < count) :
    container.liveRegion (index + 1) = .ok ⟨firstOffset + 32 * index, 0, 16⟩ := by
  refine liveRegion_eq_ok_iff.mpr ⟨Nat.succ_ne_zero index, ?_, ?_⟩
  · rw [even.tableIndex]
    nofun
  · simp [even.slots, evenSlots, inside]

theorem newEntry_eq (even : Even container count) (few : count < SlotTable.indexLimit) :
    container.newEntry 0 =
      (container.extended 16).placeRegion ⟨container.endOfFile, 0, 16⟩ := by
  refine newEntry_of_no_fit (show alignedCapacity 0 = .ok 16 from rfl) ?_ (even.bounded few)
  rw [even.slots]
  cases chosen : (evenSlots count).bestFit 16 with
  | none => rfl
  | some index =>
    obtain ⟨region, deletable, fits⟩ := SlotTable.fitsBest_of_bestFit chosen
    exact absurd ⟨region, deletable, fits.found, fits.room⟩ (not_fits_evenSlots count 16 index)

theorem newEntry (even : Even container count) (few : count + 1 < SlotTable.indexLimit) :
    Even (container.newEntry 0).2 (count + 1) := by
  have filled : SlotTable.Filled (container.extended 16).slots := by
    rw [extended_slots, even.slots]
    exact filled_evenSlots count
  have length : (container.extended 16).slots.length = count + 1 := by
    rw [extended_slots, even.slots, length_evenSlots]
  rcases placeRegion_of_filled filled ⟨container.endOfFile, 0, 16⟩ with ⟨_, placed⟩ | ⟨full, _⟩
  · rw [even.newEntry_eq (Nat.lt_of_succ_lt few), placed]
    exact {
      slots := by rw [extended_slots, even.slots, even.endOfFile, evenSlots_succ]
      endOfFile := by
        rw [extended_endOfFile, even.endOfFile]
        omega
      tableIndex := (extended_tableIndex container 16).trans even.tableIndex
      root := (extended_root container 16).trans even.root
      idle := even.idle
      settings := even.settings }
  · omega

/-- Where none is left the region is appended and stays without a slot. -/
theorem newEntry_of_full (even : Even container count)
    (full : count + 1 = SlotTable.indexLimit) :
    container.newEntry 0 = (.error (.overflow .slotIndices), container.extended 16) := by
  have filled : SlotTable.Filled (container.extended 16).slots := by
    rw [extended_slots, even.slots]
    exact filled_evenSlots count
  rw [even.newEntry_eq (by omega)]
  rcases placeRegion_of_filled filled ⟨container.endOfFile, 0, 16⟩ with ⟨room, _⟩ | ⟨_, refused⟩
  · rw [extended_slots, even.slots, length_evenSlots] at room
    omega
  · exact refused

end Even

theorem even_allocated {count : Nat} (few : count < SlotTable.indexLimit) :
    Even (allocated count) count := by
  induction count with
  | zero => exact ⟨rfl, rfl, rfl, rfl, rfl, rfl⟩
  | succ count ih => exact (ih (Nat.lt_of_succ_lt few)).newEntry few

theorem reachable_allocated (count : Nat) : Reachable (allocated count) := by
  induction count with
  | zero => exact reachable_create (by decide +kernel)
  | succ count ih => exact ih.step (.newEntry 0) rfl

theorem unstored_allocated (count : Nat) : Unstored (create {}) (allocated count) := by
  induction count with
  | zero => exact .start
  | succ count ih => exact ih.step (.newEntry 0) rfl id

/-- The regions that have slots do not reach up to the end of the file any more. -/
theorem not_tiled_of_full {count : Nat} (full : count + 1 = SlotTable.indexLimit) :
    ¬ ∃ order : List Span, order.Perm (allocated (count + 1)).slots.spans ∧
      Tiles firstOffset order (allocated (count + 1)).endOfFile := by
  have even := even_allocated (show count < SlotTable.indexLimit by omega)
  have overfull : allocated (count + 1) = (allocated count).extended 16 :=
    congrArg Prod.snd (even.newEntry_of_full full)
  rw [overfull, extended_slots, extended_endOfFile, even.slots, even.endOfFile, spans_evenSlots]
  rintro ⟨order, same, tiles⟩
  have granules : ∀ span ∈ order, span.capacity = 16 := by
    intro span member
    obtain ⟨index, _, rfl⟩ := List.mem_map.mp (same.mem_iff.mp member)
    rfl
  have stop := tiles.stop_eq granules
  rw [same.length_eq, List.length_map, List.length_range] at stop
  omega

/-- The layout of every container that can be reached. The regions, in the order of their offsets,
follow one another from the first offset to the end of the file, with two equal guard words around
each; a region without a slot lies among them only where an allocation found all indices taken. -/
theorem layout_of_reachable (reached : Reachable container) :
    container.slots[0]? = some .unused ∧
      (∀ state ∈ container.slots, ∀ region, state.region? = some region →
        0 < region.capacity ∧ region.capacity % 16 = 0 ∧ region.size ≤ region.capacity ∧
          (container.file.intAt region.leadingGuard).natAbs = region.capacity ∧
            container.file.intAt region.trailingGuard =
              container.file.intAt region.leadingGuard) ∧
      (∃ order lost : List Span, order.Perm (container.slots.spans ++ lost) ∧
        order.Pairwise (fun left right => left.offset < right.offset) ∧
          Tiles 0x238 order container.endOfFile ∧
            (∀ span ∈ order, 0 < span.capacity ∧ span.capacity % 16 = 0 ∧
              Guarded container.file span) ∧
            (lost = [] ∨ container.slots.length = SlotTable.indexLimit)) ∧
      container.endOfFile ≤ container.file.size ∧
        container.file.intAt (container.endOfFile - 8) = 0 := by
  obtain ⟨lost, laid, full⟩ := reached.sound.laid
  refine ⟨laid.sentinel, ?_, ?_, laid.held, laid.ended⟩
  · intro state member region held
    obtain ⟨index, found⟩ := List.mem_iff_getElem?.mp member
    have inside := laid.mem found held
    obtain ⟨positive, whole, _⟩ := laid.legal _ inside
    obtain ⟨leading, trailing⟩ := laid.guarded _ inside
    exact ⟨positive, whole, laid.size_le found held, leading, trailing⟩
  · obtain ⟨order, same, tiles⟩ := laid.tiled
    refine ⟨order, lost, same, tiles.pairwise.imp ?_, tiles, ?_, ?_⟩
    · intro left right before
      simp only [Span.next] at before
      omega
    · intro span member
      have inside := same.mem_iff.mp member
      obtain ⟨positive, whole, _⟩ := laid.legal span inside
      exact ⟨positive, whole, laid.guarded span inside⟩
    · by_cases kept : lost = []
      · exact Or.inl kept
      · exact Or.inr (full kept)

theorem layout_of_first_entry :
    ((create {}).newEntry 5).2.slots = [.unused, .live ⟨0x238, 0, 16⟩] ∧
      ∃ order lost : List Span,
        order.Perm (SlotTable.spans ((create {}).newEntry 5).2.slots ++ lost) ∧
          Tiles 0x238 order ((create {}).newEntry 5).2.endOfFile := by
  have reached : Reachable ((create {}).newEntry 5).2 :=
    .step (reachable_create (by decide +kernel)) (.newEntry 5) rfl
  obtain ⟨_, _, ⟨order, lost, same, _, tiles, _⟩, _⟩ := layout_of_reachable reached
  exact ⟨by decide +kernel, order, lost, same, tiles⟩

/-- After as many allocations as there are slot indices the last region has none. -/
theorem layout_of_exhausted_indices_fails : ∃ container, Reachable container ∧
    ¬ ∃ order : List Span, order.Perm container.slots.spans ∧
      Tiles 0x238 order container.endOfFile :=
  ⟨_, reachable_allocated _, @not_tiled_of_full 0xffffffff rfl⟩

end SlotStore.Container
