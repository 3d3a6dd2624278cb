import SlotStore.Proofs.Container.Invariant

/-!
Allocation keeps the invariant and spares every live user slot. A slot that it hands out was not
live before and has room for what was asked.
-/

namespace SlotStore

theorem legal_of_alignedCapacity {requested capacity : Nat}
    (granted : alignedCapacity requested = .ok capacity) (offset : Nat) :
    requested ≤ capacity ∧ Span.Legal ⟨offset, capacity⟩ := by
  unfold alignedCapacity at granted
  simp only at granted
  split at granted
  · rename_i small
    cases granted
    simp only [Span.Legal, granule] at small ⊢
    omega
  · cases granted

/-- A legal capacity has room for a request just where it has room for what is granted. -/
theorem le_iff_of_alignedCapacity {requested capacity : Nat}
    (granted : alignedCapacity requested = .ok capacity) {span : Span} (legal : span.Legal) :
    capacity ≤ span.capacity ↔ requested ≤ span.capacity := by
  unfold alignedCapacity at granted
  simp only at granted
  split at granted
  · cases granted
    simp only [Span.Legal, granule] at legal ⊢
    omega
  · cases granted

theorem overflow_of_alignedCapacity {requested : Nat} {fault : Fault}
    (refused : alignedCapacity requested = .error fault) :
    fault = .overflow (.capacity requested) := by
  unfold alignedCapacity at refused
  simp only at refused
  split at refused <;> cases refused
  rfl

namespace Container

/-- The container with a region more at the end of its file, which no slot holds yet. -/
def extended (container : Container) (capacity : Nat) : Container :=
  { container with
    file := container.file.writeAll (appendWrites container.endOfFile capacity)
    endOfFile := container.endOfFile + capacity + 16 }

@[simp] theorem extended_slots (container : Container) (capacity : Nat) :
    (container.extended capacity).slots = container.slots := by
  simp only [extended]

@[simp] theorem extended_tableIndex (container : Container) (capacity : Nat) :
    (container.extended capacity).tableIndex = container.tableIndex := by
  simp only [extended]

@[simp] theorem extended_root (container : Container) (capacity : Nat) :
    (container.extended capacity).root = container.root := by
  simp only [extended]

@[simp] theorem extended_file (container : Container) (capacity : Nat) :
    (container.extended capacity).file =
      container.file.writeAll (appendWrites container.endOfFile capacity) := by
  simp only [extended]

@[simp] theorem extended_endOfFile (container : Container) (capacity : Nat) :
    (container.extended capacity).endOfFile = container.endOfFile + capacity + 16 := by
  simp only [extended]

@[simp] theorem extended_dirty (container : Container) (capacity : Nat) :
    (container.extended capacity).dirty = container.dirty := by
  simp only [extended]

theorem appendRegion_cases (container : Container) (capacity : Nat) :
    (∃ excess, container.appendRegion capacity = (.error (.overflow excess), container)) ∨
      (container.endOfFile + capacity + 16 < 2 ^ 64 ∧ container.appendRegion capacity =
        (.ok ⟨container.endOfFile, 0, capacity⟩, container.extended capacity)) := by
  unfold appendRegion
  simp only
  split
  · exact Or.inl ⟨_, rfl⟩
  · split
    · exact Or.inl ⟨_, rfl⟩
    · exact Or.inr ⟨by omega, rfl⟩

theorem appendRegion_of_bounded {container : Container} {capacity : Nat} (signed : capacity < 2 ^ 63)
    (bounded : container.endOfFile + capacity + 16 < 2 ^ 64) :
    container.appendRegion capacity =
      (.ok ⟨container.endOfFile, 0, capacity⟩, container.extended capacity) := by
  unfold appendRegion
  simp only
  rw [if_neg (by omega), if_neg (by omega)]
  rfl

theorem placeRegion_of_acquired (container : Container) {index : Nat} {slots : SlotTable}
    (taken : container.slots.acquire = .ok (index, slots)) (region : Region) :
    container.placeRegion region =
      (.ok index, { container with slots := slots.set index (.live region), dirty := true }) := by
  unfold placeRegion
  rw [taken]

theorem placeRegion_of_exhausted (container : Container) {fault : Fault}
    (refused : container.slots.acquire = .error fault) (region : Region) :
    container.placeRegion region = (.error fault, container) := by
  unfold placeRegion
  rw [refused]

theorem placeRegion_cases (container : Container) (region : Region) :
    (∃ index slots, container.slots.acquire = .ok (index, slots) ∧
      container.placeRegion region =
        (.ok index, { container with slots := slots.set index (.live region), dirty := true })) ∨
      (SlotTable.indexLimit ≤ container.slots.length ∧
        container.placeRegion region = (.error (.overflow .slotIndices), container)) := by
  cases taken : container.slots.acquire with
  | error fault =>
    obtain ⟨rfl, _, full⟩ := SlotTable.acquire_error taken
    exact Or.inr ⟨full, container.placeRegion_of_exhausted taken region⟩
  | ok pair => exact Or.inl ⟨pair.1, pair.2, rfl, container.placeRegion_of_acquired taken region⟩

theorem placeRegion_of_room (container : Container)
    (room : container.slots.length < SlotTable.indexLimit) (region : Region) :
    ∃ index slots, container.slots.acquire = .ok (index, slots) ∧ container.placeRegion region =
      (.ok index, { container with slots := slots.set index (.live region), dirty := true }) :=
  (container.placeRegion_cases region).resolve_right fun full =>
    absurd room (Nat.not_lt.mpr full.1)

@[simp] theorem placeRegion_file (container : Container) (region : Region) :
    (container.placeRegion region).2.file = container.file := by
  rcases container.placeRegion_cases region with ⟨_, _, _, placed⟩ | ⟨_, refused⟩
  · rw [placed]
  · rw [refused]

@[simp] theorem placeRegion_tableIndex (container : Container) (region : Region) :
    (container.placeRegion region).2.tableIndex = container.tableIndex := by
  rcases container.placeRegion_cases region with ⟨_, _, _, placed⟩ | ⟨_, refused⟩
  · rw [placed]
  · rw [refused]

@[simp] theorem placeRegion_root (container : Container) (region : Region) :
    (container.placeRegion region).2.root = container.root := by
  rcases container.placeRegion_cases region with ⟨_, _, _, placed⟩ | ⟨_, refused⟩
  · rw [placed]
  · rw [refused]

theorem newEntry_of_bestFit {container : Container} {size capacity index : Nat}
    (granted : alignedCapacity size = .ok capacity)
    (chosen : container.slots.bestFit capacity = some index) :
    ∃ region deletable, container.slots.FitsBest capacity index region deletable ∧
      container.newEntry size =
        (.ok index, container.setState index (.live { region with size := 0 })) := by
  obtain ⟨region, deletable, fits⟩ := SlotTable.fitsBest_of_bestFit chosen
  refine ⟨region, deletable, fits, ?_⟩
  unfold newEntry
  simp only [granted, chosen, reuse, fits.found]

theorem newEntry_of_no_fit {container : Container} {size capacity : Nat}
    (granted : alignedCapacity size = .ok capacity)
    (none : container.slots.bestFit capacity = none)
    (bounded : container.endOfFile + capacity + 16 < 2 ^ 64) :
    container.newEntry size =
      (container.extended capacity).placeRegion ⟨container.endOfFile, 0, capacity⟩ := by
  have signed := (legal_of_alignedCapacity granted 0).2.2.2
  unfold newEntry
  simp only [granted, none, appendRegion_of_bounded signed bounded]

/-- What an allocation comes to: it is refused and nothing changes, a free slot becomes live, or a
region is appended and placed. -/
theorem newEntry_cases (container : Container) (size : Nat) :
    (∃ excess, container.newEntry size = (.error (.overflow excess), container)) ∨
      (∃ index region deletable, container.slots[index]? = some (.free region deletable) ∧
        size ≤ region.capacity ∧ container.newEntry size =
          (.ok index, container.setState index (.live { region with size := 0 }))) ∨
      ∃ capacity, alignedCapacity size = .ok capacity ∧
        container.endOfFile + capacity + 16 < 2 ^ 64 ∧ container.newEntry size =
          (container.extended capacity).placeRegion ⟨container.endOfFile, 0, capacity⟩ := by
  cases granted : alignedCapacity size with
  | error fault =>
    unfold newEntry
    rw [granted, overflow_of_alignedCapacity granted]
    exact Or.inl ⟨_, rfl⟩
  | ok capacity =>
    have room := (legal_of_alignedCapacity granted 0).1
    cases chosen : container.slots.bestFit capacity with
    | some index =>
      obtain ⟨region, deletable, fits, reused⟩ := newEntry_of_bestFit granted chosen
      exact Or.inr (Or.inl
        ⟨index, region, deletable, fits.found, Nat.le_trans room fits.room, reused⟩)
    | none =>
      rcases container.appendRegion_cases capacity with ⟨excess, refused⟩ | ⟨bounded, _⟩
      · unfold newEntry
        exact Or.inl ⟨excess, by simp only [granted, chosen, refused]⟩
      · exact Or.inr (Or.inr ⟨capacity, rfl, bounded, newEntry_of_no_fit granted chosen bounded⟩)

/-- The invariant but for one region at the end of the file, which awaits a slot. -/
structure Pending (container : Container) (span : Span) : Prop where
  laid : ∃ lost, Laid container.file container.slots (span :: lost) container.endOfFile ∧
    (lost ≠ [] → container.slots.length = SlotTable.indexLimit)
  table : ∀ index, container.tableIndex = some index →
    ∃ region, container.slots[index]? = some (.live region)
  root : ∀ index, container.root = some index → 0 < index ∧ index < container.slots.length
  limited : container.slots.length ≤ SlotTable.indexLimit
  clean : container.dirty = false → container.slots.length < SlotTable.indexLimit

variable {container : Container}

theorem Sound.extended (sound : container.Sound) {capacity : Nat}
    (legal : Span.Legal ⟨container.endOfFile, capacity⟩)
    (small : container.endOfFile + capacity + 16 < 2 ^ 64) :
    (container.extended capacity).Pending ⟨container.endOfFile, capacity⟩ := by
  obtain ⟨lost, laid, full⟩ := sound.laid
  unfold Container.extended
  exact {
    laid := ⟨lost, laid.extend legal small, full⟩
    table := sound.table
    root := sound.root
    limited := sound.limited
    clean := fun clean => (sound.saved clean).limited }

theorem Spares.extended (sound : container.Sound) (index : Nat) {capacity : Nat}
    (small : capacity < 2 ^ 63) : Spares index container (container.extended capacity) := by
  intro region live
  obtain ⟨_, _, here⟩ := liveRegion_eq_ok_iff.mp live
  obtain ⟨lost, laid, _⟩ := sound.laid
  have low := laid.first_le
  have high := (laid.within (laid.mem here rfl)).2
  simp only [firstOffset, Span.next, Region.span] at low high
  obtain ⟨_, agree, _⟩ := Laid.appended container.file (by omega) laid.held small
  refine ⟨?_, agree.same region.offset region.capacity (by omega)⟩
  rw [liveRegion_congr (extended_slots container capacity) (extended_tableIndex container capacity)]
  exact live

theorem Pending.filled {span : Span} (pending : container.Pending span) : container.slots ≠ [] := by
  obtain ⟨_, laid, _⟩ := pending.laid
  exact SlotTable.filled_of_sentinel laid.sentinel

/-- Placing the region restores the invariant, also where no index is left for it. -/
theorem Pending.placeRegion {region : Region} (pending : container.Pending region.span)
    (fits : region.size ≤ region.capacity) : (container.placeRegion region).2.Sound := by
  obtain ⟨lost, laid, full⟩ := pending.laid
  rcases container.placeRegion_cases region with ⟨index, slots, taken, placed⟩ | ⟨whole, refused⟩
  · rw [placed]
    have got := SlotTable.acquired pending.filled taken
    have readied := laid.withSlots slots (got.same 0 _ laid.sentinel)
      (by
        intro state member region held
        rcases got.mem state member with old | unused
        · exact laid.sized state old region held
        · subst unused
          cases held)
      (SlotTable.spans_acquire taken)
    exact {
      laid := by
        refine ⟨lost, readied.adopt got.pos got.unused rfl ?_, ?_⟩
        · intro region held
          cases held
          exact fits
        · intro nonempty
          rw [List.length_set]
          exact got.full (full nonempty)
      table := by
        intro other reserved
        obtain ⟨region, here⟩ := pending.table other reserved
        refine ⟨region, ?_⟩
        rw [List.getElem?_set_ne (got.fresh other _ here (by simp)).symm]
        exact got.same other _ here
      root := by
        intro other anchored
        obtain ⟨positive, inside⟩ := pending.root other anchored
        rw [List.length_set]
        exact ⟨positive, Nat.lt_of_lt_of_le inside got.length_le⟩
      limited := by
        rw [List.length_set]
        exact got.bound pending.limited
      saved := fun clean => absurd clean (by simp) }
  · rw [refused]
    exact {
      laid := ⟨_, laid, fun _ => Nat.le_antisymm pending.limited whole⟩
      table := pending.table
      root := pending.root
      limited := pending.limited
      saved := fun clean => absurd (pending.clean clean) (Nat.not_lt.mpr whole) }

theorem Spares.placeRegion (filled : container.slots ≠ []) (index : Nat) (region : Region) :
    Spares index container (container.placeRegion region).2 := by
  intro held live
  obtain ⟨nonzero, free, here⟩ := liveRegion_eq_ok_iff.mp live
  rcases container.placeRegion_cases region with ⟨other, slots, taken, placed⟩ | ⟨_, refused⟩
  · rw [placed]
    have got := SlotTable.acquired filled taken
    refine ⟨liveRegion_eq_ok_iff.mpr ⟨nonzero, free, ?_⟩, rfl⟩
    rw [List.getElem?_set_ne (got.fresh index _ here (by simp)).symm]
    exact got.same index _ here
  · rw [refused]
    exact ⟨live, rfl⟩

theorem Sound.newEntry (sound : container.Sound) (size : Nat) :
    (container.newEntry size).2.Sound := by
  rcases container.newEntry_cases size with
    ⟨_, refused⟩ | ⟨index, region, deletable, found, _, reused⟩ | ⟨capacity, granted, small, appended⟩
  · rw [refused]
    exact sound
  · rw [reused]
    refine sound.setState found rfl ?_ ?_
    · intro fresh held
      cases held
      exact Nat.zero_le _
    · exact fun _ => ⟨_, rfl⟩
  · rw [appended]
    have legal := (legal_of_alignedCapacity granted container.endOfFile).2
    exact (sound.extended legal small).placeRegion (Nat.zero_le _)

theorem Spares.newEntry (sound : container.Sound) (size index : Nat) :
    Spares index container (container.newEntry size).2 := by
  rcases container.newEntry_cases size with
    ⟨_, refused⟩ | ⟨other, region, deletable, found, _, reused⟩ | ⟨capacity, granted, small, appended⟩
  · rw [refused]
    exact Spares.refl index container
  · rw [reused]
    intro held live
    obtain ⟨_, _, here⟩ := liveRegion_eq_ok_iff.mp live
    have different : other ≠ index := by
      rintro rfl
      cases Option.some.inj (found.symm.trans here)
    exact Spares.setState container different _ held live
  · rw [appended]
    have legal := (legal_of_alignedCapacity granted container.endOfFile).2
    exact (Spares.extended sound index legal.2.2).trans
      (Spares.placeRegion (sound.extended legal small).filled index _)

theorem overflow_of_newEntry {size : Nat} {fault : Fault} {new : Container}
    (refused : container.newEntry size = (.error fault, new)) :
    ∃ excess, fault = .overflow excess := by
  rcases container.newEntry_cases size with
    ⟨excess, same⟩ | ⟨_, _, _, _, _, reused⟩ | ⟨capacity, _, _, appended⟩
  · rw [refused] at same
    exact ⟨excess, Except.error.inj (Prod.mk.inj same).1⟩
  · rw [refused] at reused
    cases (Prod.mk.inj reused).1
  · rcases (container.extended capacity).placeRegion_cases ⟨container.endOfFile, 0, capacity⟩ with
      ⟨_, _, _, placed⟩ | ⟨_, full⟩
    · rw [refused, placed] at appended
      cases (Prod.mk.inj appended).1
    · rw [refused, full] at appended
      exact ⟨_, Except.error.inj (Prod.mk.inj appended).1⟩

/-- A slot that is handed out was not live before; it is live and empty, with enough room. -/
theorem newEntry_ok (sound : container.Sound) {size index : Nat} {new : Container}
    (made : container.newEntry size = (.ok index, new)) :
    (∀ region, container.slots[index]? ≠ some (.live region)) ∧ 0 < index ∧ new.dirty = true ∧
      ∃ region, new.slots[index]? = some (.live region) ∧ region.size = 0 ∧
        size ≤ region.capacity := by
  obtain ⟨lost, laid, _⟩ := sound.laid
  rcases container.newEntry_cases size with
    ⟨_, refused⟩ | ⟨other, region, deletable, found, fits, reused⟩ | ⟨capacity, granted, small, appended⟩
  · rw [made] at refused
    cases refused
  · rw [made] at reused
    cases reused
    have bound := (List.getElem?_eq_some_iff.mp found).1
    refine ⟨fun held live => ?_, laid.pos found rfl, rfl, { region with size := 0 }, ?_, rfl, fits⟩
    · cases Option.some.inj (found.symm.trans live)
    · simp [Container.setState, bound]
  · obtain ⟨room, legal⟩ := legal_of_alignedCapacity granted container.endOfFile
    rcases (container.extended capacity).placeRegion_cases ⟨container.endOfFile, 0, capacity⟩ with
      ⟨other, slots, taken, placed⟩ | ⟨_, refused⟩
    · have got := SlotTable.acquired (sound.extended legal small).filled taken
      have bound := (List.getElem?_eq_some_iff.mp got.unused).1
      rw [made, placed] at appended
      cases appended
      refine ⟨fun held live => got.fresh _ _ live (by simp) rfl, got.pos, rfl,
        ⟨container.endOfFile, 0, capacity⟩, ?_, rfl, room⟩
      simp [bound]
    · rw [made, refused] at appended
      cases appended

/-- Allocation does not touch what the header says besides the slots, nor does it shrink the table
or undo a change. -/
theorem newEntry_frame (container : Container) (size : Nat) :
    (container.newEntry size).2.tableIndex = container.tableIndex ∧
      (container.newEntry size).2.root = container.root ∧
      (container.dirty = true → (container.newEntry size).2.dirty = true) := by
  rcases container.newEntry_cases size with
    ⟨_, refused⟩ | ⟨_, _, _, _, _, reused⟩ | ⟨capacity, _, _, appended⟩
  · rw [refused]
    exact ⟨rfl, rfl, id⟩
  · rw [reused]
    exact ⟨rfl, rfl, fun _ => rfl⟩
  · rw [appended]
    rcases (container.extended capacity).placeRegion_cases ⟨container.endOfFile, 0, capacity⟩ with
      ⟨_, _, _, placed⟩ | ⟨_, refused⟩
    · simp [placed]
    · simp [refused]

end Container

end SlotStore
