import SlotStore.Proofs.Container.Keeping
import SlotStore.Proofs.Scaling

/-!
How often the slot table moves. Where the settings ask for more records than there are slots, a
move makes room for one slot more than there are, which is as many as the move itself can add, so
the table moves once at most. Settings that ask for fewer records can move it between the same two
places forever.
-/

namespace SlotStore

theorem excess_of_alignedCapacity {requested : Nat} {fault : Fault}
    (refused : alignedCapacity requested = .error fault) : 2 ^ 63 ≤ requested + 32 := by
  unfold alignedCapacity at refused
  simp only at refused
  split at refused
  · cases refused
  · rename_i large
    simp only [granule] at large
    omega

theorem capacity_le_of_alignedCapacity {requested capacity : Nat}
    (granted : alignedCapacity requested = .ok capacity) : capacity ≤ requested + 16 := by
  unfold alignedCapacity at granted
  simp only at granted
  split at granted
  · cases granted
    simp only [granule]
    omega
  · cases granted

namespace Container

variable {container : Container}

/-- An allocation is refused only where an offset or the number of slots would grow too large. -/
theorem excess_of_newEntry {size : Nat} {fault : Fault} {new : Container}
    (refused : container.newEntry size = (.error fault, new)) :
    2 ^ 63 ≤ container.endOfFile + size + 32 ∨ SlotTable.indexLimit ≤ container.slots.length := by
  cases granted : alignedCapacity size with
  | error cause =>
    have excess := excess_of_alignedCapacity granted
    exact Or.inl (by omega)
  | ok capacity =>
    have most := capacity_le_of_alignedCapacity granted
    cases chosen : container.slots.bestFit capacity with
    | some index =>
      obtain ⟨_, _, _, reused⟩ := newEntry_of_bestFit granted chosen
      cases refused.symm.trans reused
    | none =>
      by_cases bounded : container.endOfFile + capacity + 16 < 2 ^ 64
      · have appended := newEntry_of_no_fit granted chosen bounded
        rcases (container.extended capacity).placeRegion_cases ⟨container.endOfFile, 0, capacity⟩
          with ⟨_, _, _, placed⟩ | ⟨full, _⟩
        · cases refused.symm.trans (appended.trans placed)
        · exact Or.inr full
      · exact Or.inl (by omega)

theorem length_newEntry_le (container : Container) (size : Nat) :
    (container.newEntry size).2.slots.length ≤ container.slots.length + 1 := by
  rcases container.newEntry_cases size with
    ⟨_, refused⟩ | ⟨_, _, _, _, _, reused⟩ | ⟨capacity, _, _, appended⟩
  · rw [refused]
    exact Nat.le_succ _
  · rw [reused]
    exact Nat.le_succ_of_le (Nat.le_of_eq (List.length_set ..))
  · rw [appended]
    rcases (container.extended capacity).placeRegion_cases ⟨container.endOfFile, 0, capacity⟩ with
      ⟨_, slots, taken, placed⟩ | ⟨_, full⟩
    · rw [placed]
      rcases SlotTable.acquire_ok taken with ⟨_, rfl⟩ | ⟨_, _, _, rfl⟩ <;> simp
    · rw [full]
      exact Nat.le_succ _

@[simp] theorem length_releaseTable (container : Container) :
    container.releaseTable.slots.length = container.slots.length := by
  unfold releaseTable
  split
  · exact List.length_set ..
  · rfl

@[simp] theorem releaseTable_settings (container : Container) :
    container.releaseTable.settings = container.settings := by
  unfold releaseTable
  split <;> rfl

@[simp] theorem releaseTable_endOfFile (container : Container) :
    container.releaseTable.endOfFile = container.endOfFile := by
  unfold releaseTable
  split <;> rfl

/-- A move asks the released container for room for as many records as the settings say. -/
theorem moveTable_eq (container : Container) :
    container.moveTable =
      match container.releaseTable.newEntry
        (container.settings.tableRecords container.slots.length * SlotRecord.width) with
      | (.error fault, new) => (.error fault, new)
      | (.ok index, new) => (.ok (), { new with tableIndex := some index }) := by
  rw [← container.releaseTable_settings, ← container.length_releaseTable]
  rfl

/-- After a move into room for more records than there were slots, every record fits. -/
theorem tableFits_moveTable (sound : container.Sound) (dirty : container.dirty = true)
    (grows : container.slots.length < container.settings.tableRecords container.slots.length)
    {moved : Container} (done : container.moveTable = (.ok (), moved)) :
    moved.tableFits = true := by
  rw [moveTable_eq] at done
  rcases made : container.releaseTable.newEntry
    (container.settings.tableRecords container.slots.length * SlotRecord.width) with
    ⟨fault | index, new⟩
  · rw [made] at done
    cases done
  · rw [made] at done
    cases done
    have longer := container.releaseTable.length_newEntry_le
      (container.settings.tableRecords container.slots.length * SlotRecord.width)
    obtain ⟨_, _, _, region, here, _, room⟩ := newEntry_ok (sound.releaseTable dirty) made
    rw [made, length_releaseTable] at longer
    refine tableFits_iff.mpr ⟨index, region, rfl, here, ?_⟩
    calc new.slots.length * SlotRecord.width
        ≤ container.settings.tableRecords container.slots.length * SlotRecord.width :=
          Nat.mul_le_mul_right _ (Nat.le_trans longer grows)
      _ ≤ region.capacity := room

/-- A table whose own region is the best fit for the records that the settings ask for stays where
it is. -/
theorem moveTable_of_bestFit {index : Nat} {region : Region} {capacity : Nat}
    (reserved : container.tableIndex = some index)
    (here : container.slots[index]? = some (.live region)) (empty : region.size = 0)
    (dirty : container.dirty = true)
    (granted : alignedCapacity (container.settings.tableRecords container.slots.length *
      SlotRecord.width) = .ok capacity)
    (best : SlotTable.bestFit (container.slots.set index (.free region false)) capacity =
      some index) :
    container.moveTable = (.ok (), container) := by
  have bound := (List.getElem?_eq_some_iff.mp here).1
  have table : container.tableRegion? = some region :=
    tableRegion?_eq_some_iff.mpr ⟨index, reserved, here⟩
  have released : container.releaseTable = { container with
      slots := container.slots.set index (.free region false), tableIndex := none } := by
    simp only [releaseTable, reserved, table]
  have same : container.slots.set index (.live region) = container.slots := by
    rw [(List.getElem?_eq_some_iff.mp here).2.symm]
    exact List.set_getElem_self bound
  obtain ⟨offset, size, length⟩ := region
  cases empty
  rw [moveTable_eq, released]
  simp only [newEntry, granted, best, reuse, List.getElem?_set_self bound, setState, List.set_set,
    same]
  cases container
  cases reserved
  cases dirty
  rfl

theorem tableFits_of_clean (sound : container.Sound) (clean : container.dirty = false) :
    container.tableFits = true := by
  obtain ⟨index, region, reserved, here, _, fits, _⟩ := (sound.saved clean).table
  exact tableFits_iff.mpr ⟨index, region, reserved, here, fits⟩

/-- Where the settings ask for more records than there are slots, one move settles the table, and a
budget of two is as good as any larger one. -/
theorem settleTable_of_grows (sound : container.Sound)
    (grows : container.slots.length < container.settings.tableRecords container.slots.length)
    (budget : Nat) : container.settleTable (budget + 2) =
      if container.tableFits then (.ok (), container) else container.moveTable := by
  rw [settleTable]
  split
  · rfl
  · rename_i short
    have dirty : container.dirty = true := by
      by_contra clean
      exact short (tableFits_of_clean sound (by simpa using clean))
    rcases moved : container.moveTable with ⟨fault | done, new⟩
    · rfl
    · simp only [settleTable, tableFits_moveTable sound dirty grows moved, if_true]

theorem ensureTable_of_grows (sound : container.Sound)
    (grows : container.slots.length < container.settings.tableRecords container.slots.length) :
    container.ensureTable =
      if container.tableFits then (.ok (), container) else container.moveTable :=
  settleTable_of_grows sound grows _

/-- Making room for the slot table is refused only where an offset or the number of slots has grown too
large for an allocation. -/
theorem excess_of_ensureTable (sound : container.Sound)
    (grows : container.slots.length < container.settings.tableRecords container.slots.length)
    {fault : Fault} {new : Container} (refused : container.ensureTable = (.error fault, new)) :
    2 ^ 63 ≤ container.endOfFile +
        container.settings.tableRecords container.slots.length * SlotRecord.width + 32 ∨
      SlotTable.indexLimit ≤ container.slots.length := by
  rw [ensureTable_of_grows sound grows, moveTable_eq] at refused
  split at refused
  · cases refused
  · rcases made : container.releaseTable.newEntry
      (container.settings.tableRecords container.slots.length * SlotRecord.width) with
      ⟨cause | index, moved⟩
    · have bounds := excess_of_newEntry made
      rwa [releaseTable_endOfFile, length_releaseTable] at bounds
    · rw [made] at refused
      cases refused

theorem length_ensureTable_le (sound : container.Sound)
    (grows : container.slots.length < container.settings.tableRecords container.slots.length) :
    container.ensureTable.2.slots.length ≤ container.slots.length + 1 := by
  have longer := container.releaseTable.length_newEntry_le
    (container.settings.tableRecords container.slots.length * SlotRecord.width)
  rw [length_releaseTable] at longer
  rw [ensureTable_of_grows sound grows, moveTable_eq]
  split
  · exact Nat.le_succ _
  · rcases made : container.releaseTable.newEntry
      (container.settings.tableRecords container.slots.length * SlotRecord.width) with
      ⟨cause | index, moved⟩ <;>
    · rw [made] at longer
      exact longer

/-- A dirty container is flushed while there are offsets and indices left for the slot table. -/
theorem flush_of_grows (sound : container.Sound) (dirty : container.dirty = true)
    (grows : container.slots.length < container.settings.tableRecords container.slots.length)
    (bounded : container.endOfFile +
      container.settings.tableRecords container.slots.length * SlotRecord.width + 32 < 2 ^ 63)
    (few : container.slots.length + 1 < SlotTable.indexLimit) : container.flush.1 = .ok () := by
  have longer := length_ensureTable_le sound grows
  obtain ⟨_, fits⟩ := moved_ensureTable sound dirty
  rcases ensured : container.ensureTable with ⟨fault | done, roomy⟩
  · have excess := excess_of_ensureTable sound grows ensured
    omega
  · rw [ensured] at longer fits
    obtain ⟨index, region, reserved, here, _⟩ := tableFits_iff.mp (fits rfl)
    rw [flush_of_ensured dirty ensured reserved here (Nat.lt_of_le_of_lt longer few)]

/-- Where a move leads back to the container that it was made on, the table is never settled. -/
theorem settleTable_of_stuck (short : container.tableFits = false)
    (stuck : container.moveTable = (.ok (), container)) (budget : Nat) :
    container.settleTable budget =
      (.error (.overflow (.tableGrowth container.slots.length)), container) := by
  induction budget with
  | zero => rfl
  | succ budget ih => simp only [settleTable, short, Bool.false_eq_true, if_false, stuck, ih]

/-- A table that is not settled by a first move has one move less to be settled in. -/
theorem settleTable_succ_of_move (short : container.tableFits = false) {moved : Container}
    (done : container.moveTable = (.ok (), moved)) (budget : Nat) :
    container.settleTable (budget + 1) = moved.settleTable budget := by
  simp only [settleTable, short, Bool.false_eq_true, if_false, done]

/-- In a container that can be reached, with a growth factor above one in double precision or fewer
slots than the least number of records, the loop that makes room for the slot table ends after one
move at most. Then the table's slot is live with room for every record, unless an offset or the
number of slots has grown too large for an allocation. -/
theorem ensureTable_of_reachable (reached : Reachable container)
    (grows : binary64.Holds container.settings.tableGrowth ∧
        (Binary.finite false 1 0).lt container.settings.tableGrowth = true ∨
      container.slots.length < container.settings.tableMinimum) :
    (∀ budget, container.settleTable (budget + 2) = container.ensureTable) ∧
      ((∃ settled index region, container.ensureTable = (.ok (), settled) ∧
          settled.tableIndex = some index ∧ settled.slots[index]? = some (.live region) ∧
            16 * settled.slots.length ≤ region.capacity) ∨
        (∃ excess, container.ensureTable.1 = .error (.overflow excess)) ∧
          (2 ^ 63 ≤ container.endOfFile +
              16 * container.settings.tableRecords container.slots.length + 32 ∨
            container.slots.length = SlotTable.indexLimit)) := by
  have sound := reached.sound
  obtain ⟨_, laid, _⟩ := sound.laid
  have limit : SlotTable.indexLimit = 2 ^ 32 := rfl
  have limited := sound.limited
  have filled : 0 < container.slots.length :=
    (List.getElem?_eq_some_iff.mp laid.sentinel).1
  have more := ContainerSettings.lt_tableRecords filled (by omega) grows
  have ensured := ensureTable_of_grows sound more
  refine ⟨fun budget => (settleTable_of_grows sound more budget).trans ensured.symm, ?_⟩
  rcases outcome : container.ensureTable with ⟨fault | done, settled⟩
  · obtain ⟨excess, rfl⟩ := overflow_of_settleTable outcome
    have bounds := excess_of_ensureTable sound more outcome
    simp only [SlotRecord.width] at bounds
    exact Or.inr ⟨⟨excess, rfl⟩, by omega⟩
  · refine Or.inl ?_
    have fits : settled.tableFits = true := by
      rw [outcome] at ensured
      split at ensured
      · rename_i roomy
        cases ensured
        exact roomy
      · rename_i short
        have dirty : container.dirty = true := by
          by_contra clean
          exact short (tableFits_of_clean sound (by simpa using clean))
        exact tableFits_moveTable sound dirty more ensured.symm
    obtain ⟨index, region, reserved, here, room⟩ := tableFits_iff.mp fits
    simp only [SlotRecord.width] at room
    exact ⟨settled, index, region, rfl, reserved, here, by omega⟩

theorem ensureTable_of_create :
    binary64.Holds (create {}).settings.tableGrowth ∧
      (Binary.finite false 1 0).lt (create {}).settings.tableGrowth = true ∧
        ∀ budget, (create {}).settleTable (budget + 2) = (create {}).ensureTable := by
  have held : binary64.Holds (create {}).settings.tableGrowth := by decide +kernel
  have more : (Binary.finite false 1 0).lt (create {}).settings.tableGrowth = true := by
    decide +kernel
  exact ⟨held, more,
    (ensureTable_of_reachable (reachable_create (by decide +kernel)) (Or.inl ⟨held, more⟩)).1⟩

/-- A new container whose growth factor is a NaN and whose least number of records is one is legal,
but no number of moves settles its slot table. -/
theorem settleTable_of_nan_fails :
    ContainerSettings.check { tableGrowth := .nan, tableMinimum := 1 } = .ok () ∧
      ¬∃ budget, ((create { tableGrowth := .nan, tableMinimum := 1 }).settleTable budget).1 =
        .ok () := by
  have first : (create { tableGrowth := .nan, tableMinimum := 1 }).moveTable =
      (.ok (), (create { tableGrowth := .nan, tableMinimum := 1 }).moveTable.2) :=
    Prod.ext (by decide +kernel) rfl
  have again : (create { tableGrowth := .nan, tableMinimum := 1 }).moveTable.2.moveTable =
      (.ok (), (create { tableGrowth := .nan, tableMinimum := 1 }).moveTable.2) :=
    @moveTable_of_bestFit _ 1 ⟨0x238, 0, 16⟩ 16
      (by decide +kernel) (by decide +kernel) rfl (by decide +kernel) (by decide +kernel)
      (by decide +kernel)
  refine ⟨by decide +kernel, fun ⟨budget, settled⟩ => ?_⟩
  cases budget with
  | zero => cases settled
  | succ budget =>
    rw [settleTable_succ_of_move (by decide +kernel) first,
      settleTable_of_stuck (by decide +kernel) again] at settled
    cases settled

end SlotStore.Container
