import SlotStore.Proofs.Container.Exhaustion

/-!
Where an allocation goes. It takes the free slot that fits best, by what was asked for and not by
what that is rounded to, and changes nothing else; only where no free slot fits does the file grow,
by one region for the next index.
-/

namespace SlotStore.Container

variable {container new : Container} {size capacity index : Nat}

/-- A free slot has room for a request just where it has room for what is granted. -/
theorem Sound.le_iff_of_granted (sound : container.Sound)
    (granted : alignedCapacity size = .ok capacity) {region : Region} {deletable : Bool}
    (found : container.slots[index]? = some (.free region deletable)) :
    capacity ≤ region.capacity ↔ size ≤ region.capacity := by
  obtain ⟨_, laid, _⟩ := sound.laid
  exact le_iff_of_alignedCapacity granted (laid.legal _ (laid.mem found rfl))

theorem Sound.fits_iff_of_granted (sound : container.Sound)
    (granted : alignedCapacity size = .ok capacity) :
    container.slots.Fits capacity index ↔ container.slots.Fits size index := by
  constructor
  · rintro ⟨region, deletable, found, room⟩
    exact ⟨region, deletable, found, (sound.le_iff_of_granted granted found).mp room⟩
  · rintro ⟨region, deletable, found, room⟩
    exact ⟨region, deletable, found, (sound.le_iff_of_granted granted found).mpr room⟩

theorem Sound.fitsBest_of_granted (sound : container.Sound)
    (granted : alignedCapacity size = .ok capacity) {region : Region} {deletable : Bool}
    (fits : container.slots.FitsBest capacity index region deletable) :
    container.slots.FitsBest size index region deletable where
  found := fits.found
  room := (sound.le_iff_of_granted granted fits.found).mp fits.room
  best := fun other held marked free room =>
    fits.best other held marked free ((sound.le_iff_of_granted granted free).mpr room)

/-- Where some free slot has room, the best of them is taken and nothing else changes. -/
theorem Sound.newEntry_of_fits (sound : container.Sound)
    (granted : alignedCapacity size = .ok capacity) (fits : container.slots.Fits size index) :
    ∃ best region deletable, container.slots.FitsBest size best region deletable ∧
      container.newEntry size = (.ok best, { container with
        slots := container.slots.set best (.live { region with size := 0 }), dirty := true }) := by
  cases chosen : container.slots.bestFit capacity with
  | none =>
    exact absurd ((sound.fits_iff_of_granted granted).mpr fits)
      (SlotTable.not_fits_of_bestFit chosen index)
  | some best =>
    obtain ⟨region, deletable, found, reused⟩ := newEntry_of_bestFit granted chosen
    exact ⟨best, region, deletable, sound.fitsBest_of_granted granted found, reused⟩

/-- Where no free slot has room, the file grows by one region, which gets the next index. -/
theorem Sound.newEntry_of_not_fits (sound : container.Sound)
    (granted : alignedCapacity size = .ok capacity)
    (bounded : container.endOfFile + capacity + 16 < 2 ^ 64)
    (none : ∀ index, ¬ container.slots.Fits size index) :
    container.newEntry size =
      (container.extended capacity).placeRegion ⟨container.endOfFile, 0, capacity⟩ := by
  refine newEntry_of_no_fit granted ?_ bounded
  cases chosen : container.slots.bestFit capacity with
  | none => rfl
  | some index =>
    obtain ⟨region, deletable, fits⟩ := SlotTable.fitsBest_of_bestFit chosen
    exact absurd ((sound.fits_iff_of_granted granted).mp ⟨region, deletable, fits.found, fits.room⟩)
      (none index)

/-- An allocation takes the best fit and otherwise appends. If some free slot, marked for
reclamation or not, has room for the request, the one with the lowest index of the smallest such
capacity becomes live and empty over its old region, and nothing else changes. If none has, the next
index gets an empty region of just the capacity that is granted at the old end of the file, which
moves behind it, and no other slot changes; or every index that a slot can have is in use. What is
answered is never the sentinel, the slot of the slot table or a slot that was live. -/
theorem allocation_of_reachable (reached : Reachable container)
    (granted : alignedCapacity size = .ok capacity)
    (bounded : container.endOfFile + capacity + 16 < 2 ^ 64) :
    ((∃ index, container.slots.Fits size index) → ∃ index region deletable,
        container.slots.FitsBest size index region deletable ∧
          container.newEntry size = (.ok index, { container with
            slots := container.slots.set index (.live { region with size := 0 }), dirty := true })) ∧
      ((∀ index, ¬ container.slots.Fits size index) →
        (∃ index new, container.slots.NextIndex index ∧ container.newEntry size = (.ok index, new) ∧
          new.slots[index]? = some (.live ⟨container.endOfFile, 0, capacity⟩) ∧
            (∀ other, other ≠ index → new.slots[other]? = container.slots[other]?) ∧
              new.endOfFile = container.endOfFile + capacity + 16) ∨
          container.slots.length = SlotTable.indexLimit ∧
            (∀ index, 0 < index → container.slots[index]? ≠ some .unused) ∧
              (container.newEntry size).1 = .error (.overflow .slotIndices)) ∧
      ∀ index new, container.newEntry size = (.ok index, new) →
        index ≠ 0 ∧ container.tableIndex ≠ some index ∧
          ∀ region, container.slots[index]? ≠ some (.live region) := by
  have sound := reached.sound
  refine ⟨fun ⟨_, fits⟩ => sound.newEntry_of_fits granted fits, fun none => ?_, ?_⟩
  · have appended := sound.newEntry_of_not_fits granted bounded none
    cases taken : container.slots.acquire with
    | ok pair =>
      obtain ⟨index, slots⟩ := pair
      have changed := SlotTable.getElem?_set_acquired taken
        (.live ⟨container.endOfFile, 0, capacity⟩)
      have placed := (container.extended capacity).placeRegion_of_acquired
        (by rw [extended_slots, taken]) ⟨container.endOfFile, 0, capacity⟩
      exact Or.inl ⟨index, _, SlotTable.nextIndex_of_acquire taken, appended.trans placed,
        (changed index).trans (if_pos rfl),
        fun other different => (changed other).trans (if_neg different), rfl⟩
    | error fault =>
      obtain ⟨rfl, used, full⟩ := SlotTable.acquire_error taken
      have refused := (container.extended capacity).placeRegion_of_exhausted
        (by rw [extended_slots, taken]) ⟨container.endOfFile, 0, capacity⟩
      exact Or.inr ⟨Nat.le_antisymm sound.limited full,
        fun index => SlotTable.used_of_unusedIndex_none used,
        congrArg Prod.fst (appended.trans refused)⟩
  · intro index new made
    obtain ⟨fresh, behind, _⟩ := newEntry_ok sound made
    refine ⟨Nat.ne_of_gt behind, fun reserved => ?_, fresh⟩
    obtain ⟨region, live⟩ := sound.table index reserved
    exact fresh region live

/-- Of three released slots two are as small as it gets, and the lower one is taken. -/
theorem allocation_of_released_slots : ∃ container : Container, Reachable container ∧
    container.slots = [.unused, .free ⟨0x238, 0, 16⟩ false, .free ⟨0x258, 0, 48⟩ false,
      .free ⟨0x298, 0, 16⟩ false] ∧ container.newEntry 7 = (.ok 1, { container with
        slots := container.slots.set 1 (.live ⟨0x238, 0, 16⟩), dirty := true }) := by
  obtain ⟨container, made⟩ : ∃ container, (((((((create {}).newEntry 5).2.newEntry 40).2.newEntry
      5).2.release 1).2.release 2).2.release 3).2 = container := ⟨_, rfl⟩
  have reached : Reachable container := by
    have created : Reachable (create {}) := reachable_create (by decide +kernel)
    have first := created.step (.newEntry 5) rfl
    have second := first.step (.newEntry 40) rfl
    have third := second.step (.newEntry 5) rfl
    have released := (third.step (.release 1) rfl).step (.release 2) rfl
    exact released.step (.release 3) (congrArg some made)
  have slots : container.slots = [.unused, .free ⟨0x238, 0, 16⟩ false,
      .free ⟨0x258, 0, 48⟩ false, .free ⟨0x298, 0, 16⟩ false] := by
    rw [← made]
    decide +kernel
  have bounded : container.endOfFile + 16 + 16 < 2 ^ 64 := by
    rw [← made]
    decide +kernel
  have answer : (container.newEntry 7).1 = .ok 1 := by
    rw [← made]
    decide +kernel
  have granted : alignedCapacity 7 = .ok 16 := by decide +kernel
  obtain ⟨index, region, deletable, best, taken⟩ :=
    (allocation_of_reachable reached granted bounded).1
      ⟨1, ⟨0x238, 0, 16⟩, false, by rw [slots]; rfl, by decide⟩
  rw [taken] at answer
  cases answer
  have here := best.found
  rw [slots] at here
  cases here
  exact ⟨container, reached, slots, taken⟩

/-- No free slot fits, a capacity is granted and its region is within bounds, and still the request is
refused: every index is in use. -/
theorem allocation_of_exhausted_indices_fails : ∃ container capacity, Reachable container ∧
    alignedCapacity 0 = .ok capacity ∧ container.endOfFile + capacity + 16 < 2 ^ 64 ∧
      (∀ index, ¬ container.slots.Fits 0 index) ∧
        (container.newEntry 0).1 = .error (.overflow .slotIndices) := by
  have even := @even_allocated 0xffffffff (by decide)
  refine ⟨_, 16, reachable_allocated 0xffffffff, rfl, even.bounded (by decide), ?_,
    congrArg Prod.fst (even.newEntry_of_full rfl)⟩
  rw [even.slots]
  exact not_fits_evenSlots _ 0

end SlotStore.Container
