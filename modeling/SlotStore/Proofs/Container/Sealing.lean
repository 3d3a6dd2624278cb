import SlotStore.Proofs.Container.Crash
import SlotStore.Proofs.Container.TableGrowth

/-!
The container that a flush writes: room for the slot table has been made, and the header describes
the table where it now lies. Seen from the container that was stored last it only grew, and its file
keeps all that was stored. Where the table had to move, its old slot is free.
-/

namespace SlotStore.Container

variable {container : Container}

theorem newEntry_agrees (sound : container.Sound) (size : Nat) :
    File.AgreesBelow (container.endOfFile - 8) container.file (container.newEntry size).2.file := by
  rcases container.newEntry_cases size with
    ⟨_, refused⟩ | ⟨_, _, _, _, _, reused⟩ | ⟨capacity, granted, small, appended⟩
  · rw [refused]
    exact File.AgreesBelow.refl _ _
  · rw [reused]
    exact File.AgreesBelow.refl _ _
  · obtain ⟨_, laid, _⟩ := sound.laid
    have low := laid.first_le
    have legal := (legal_of_alignedCapacity granted container.endOfFile).2
    simp only [firstOffset] at low
    obtain ⟨_, agree, _⟩ := Laid.appended container.file (by omega) laid.held legal.2.2
    rw [appended, placeRegion_file, extended_file]
    exact agree

@[simp] theorem releaseTable_file (container : Container) :
    container.releaseTable.file = container.file := by
  unfold releaseTable
  split <;> rfl

theorem moveTable_agrees (sound : container.Sound) (dirty : container.dirty = true) :
    File.AgreesBelow (container.endOfFile - 8) container.file container.moveTable.2.file := by
  have agrees (size : Nat) := newEntry_agrees (sound.releaseTable dirty) size
  simp only [releaseTable_endOfFile, releaseTable_file] at agrees
  obtain ⟨size, ⟨_, _, refused⟩ | ⟨_, _, moved⟩⟩ := container.moveTable_cases
  · rw [refused]
    exact agrees size
  · rw [moved]
    exact agrees size

/-- A table that moves because its region is too small does not come back to it. -/
theorem free_of_moveTable (sound : container.Sound) (filled : SlotTable.Filled container.slots)
    (grows : container.slots.length < container.settings.tableRecords container.slots.length)
    {index : Nat} {region : Region} (reserved : container.tableIndex = some index)
    (here : container.slots[index]? = some (.live region))
    (short : region.capacity < container.slots.length * SlotRecord.width) {moved : Container}
    (done : container.moveTable = (.ok (), moved)) :
    moved.tableIndex ≠ some index ∧ moved.slots[index]? = some (.free region false) := by
  have bound := (List.getElem?_eq_some_iff.mp here).1
  have table : container.tableRegion? = some region :=
    tableRegion?_eq_some_iff.mpr ⟨index, reserved, here⟩
  have released : container.releaseTable.slots = container.slots.set index (.free region false) := by
    simp only [releaseTable, reserved, table]
  have freed : container.releaseTable.slots[index]? = some (.free region false) := by
    rw [released, List.getElem?_set_self bound]
  have behind : SlotTable.Filled container.releaseTable.slots :=
    filled.congr (shape_releaseTable sound)
  have enough : container.slots.length * SlotRecord.width ≤
      container.settings.tableRecords container.slots.length * SlotRecord.width :=
    Nat.mul_le_mul_right _ (Nat.le_of_lt grows)
  rw [moveTable_eq] at done
  rcases container.releaseTable.newEntry_cases
    (container.settings.tableRecords container.slots.length * SlotRecord.width) with
    ⟨_, refused⟩ | ⟨other, own, deletable, found, fits, reused⟩ | ⟨capacity, _, _, appended⟩
  · rw [refused] at done
    cases done
  · -- a free slot with room enough is another one
    have different : other ≠ index := by
      rintro rfl
      cases found.symm.trans freed
      omega
    rw [reused] at done
    cases done
    refine ⟨fun same => different (Option.some.inj same), ?_⟩
    simp only [setState]
    rw [List.getElem?_set_ne different, freed]
  · have slots := extended_slots container.releaseTable capacity
    rw [appended] at done
    generalize container.releaseTable.extended capacity = grown at slots done
    rcases placeRegion_of_filled (slots ▸ behind)
      ⟨container.releaseTable.endOfFile, 0, capacity⟩ with ⟨_, placed⟩ | ⟨_, refused⟩
    · rw [placed] at done
      cases done
      simp only [slots]
      rw [List.getElem?_append_left (by simpa using bound), freed]
      refine ⟨fun same => ?_, rfl⟩
      have last := Option.some.inj same
      rw [length_releaseTable] at last
      omega
    · rw [refused] at done
      cases done

/-- The container whose writes a flush carries out, once there is room for the slot table. -/
def sealing (container : Container) : Container :=
  match container.ensureTable.2.tableIndex, container.ensureTable.2.tableRegion? with
  | some index, some region => container.ensureTable.2.sealTable index region
  | _, _ => container.ensureTable.2

/-- A flush that succeeds carries out the writes of the container that it sealed. -/
theorem flush_eq_sealing (sound : container.Sound) (dirty : container.dirty = true)
    (stored : container.flush.1 = .ok ()) :
    container.ensureTable.1 = .ok () ∧ container.flush = (.ok (), { container.sealing with
      file := container.sealing.file.writeAll container.sealing.flushWrites, dirty := false }) ∧
      ∃ index region own, container.ensureTable.2.tableIndex = some index ∧
        container.ensureTable.2.slots[index]? = some (.live own) ∧
        container.sealing = container.ensureTable.2.sealTable index own ∧
        container.sealing.Sealed index region := by
  rcases flush_ensured sound dirty with
    ⟨fault, failed⟩ | ⟨index, own, ensured, reserved, here, ready, written⟩
  · rw [failed] at stored
    cases stored
  · have table : container.ensureTable.2.tableRegion? = some own :=
      tableRegion?_eq_some_iff.mpr ⟨index, reserved, here⟩
    have sealed : container.sealing = container.ensureTable.2.sealTable index own := by
      simp only [sealing, reserved, table]
    rw [sealed]
    exact ⟨ensured, written, index, _, own, reserved, here, rfl, ready⟩

theorem advances_sealing (sound : container.Sound) (filled : SlotTable.Filled container.slots)
    (dirty : container.dirty = true) (stored : container.flush.1 = .ok ()) :
    ∃ recorded lost, Advances container container.sealing recorded lost := by
  obtain ⟨moved, _⟩ := moved_ensureTable sound dirty
  obtain ⟨recorded, lost, making⟩ :=
    advances_settleTable sound dirty filled (SlotTable.indexLimit + 2)
  obtain ⟨_, _, _, _, own, _, here, same, _⟩ := flush_eq_sealing sound dirty stored
  rw [same]
  exact ⟨_, _, making.trans (advances_sealTable moved.sound here)⟩

/-- What a flush seals, seen from the container that was stored last. -/
structure Flushing (base sealed : Container) (recorded : List Span) : Prop where
  shape : SlotTable.shape sealed.slots = SlotTable.shape base.slots ++ recorded.map some
  tiles : Tiles base.endOfFile recorded sealed.endOfFile
  laid : Laid sealed.file sealed.slots [] sealed.endOfFile
  kept : ∀ pos count, base.Clear pos count →
    sealed.file.slice pos count = base.file.slice pos count

/-- Room for the slot table is made by one move at most, which stores nothing below the zero word
and leaves the old slot of the table free. -/
theorem ensureTable_ok (sound : container.Sound) (filled : SlotTable.Filled container.slots)
    (dirty : container.dirty = true)
    (grows : container.slots.length < container.settings.tableRecords container.slots.length)
    (ensured : container.ensureTable.1 = .ok ()) :
    File.AgreesBelow (container.endOfFile - 8) container.file container.ensureTable.2.file ∧
      (container.ensureTable.2.tableIndex = container.tableIndex ∨
        ∀ index, container.tableIndex = some index →
          container.ensureTable.2.tableIndex ≠ some index ∧
            ∃ region, container.ensureTable.2.slots[index]? = some (.free region false)) := by
  rw [ensureTable_of_grows sound grows] at ensured ⊢
  split
  · exact ⟨File.AgreesBelow.refl _ _, Or.inl rfl⟩
  · rename_i short
    rw [if_neg short] at ensured
    refine ⟨moveTable_agrees sound dirty, Or.inr fun index reserved => ?_⟩
    obtain ⟨region, here⟩ := sound.table index reserved
    have small : region.capacity < container.slots.length * SlotRecord.width := by
      by_contra fits
      exact short (tableFits_iff.mpr ⟨index, region, reserved, here, Nat.le_of_not_lt fits⟩)
    obtain ⟨away, free⟩ :=
      free_of_moveTable sound filled grows reserved here small (Prod.ext ensured rfl)
    exact ⟨away, region, free⟩

/-- Between two flushes a container grows, and so it does up to where the next flush writes. -/
theorem flushing_of_unstored {base now : Container} (sound : base.Sound)
    (filled : SlotTable.Filled base.slots) (restorable : base.Restorable) (run : Unstored base now)
    (dirty : now.dirty = true)
    (grows : now.slots.length < now.settings.tableRecords now.slots.length)
    (stored : now.flush.1 = .ok ()) :
    ∃ recorded index region, Flushing base now.sealing recorded ∧
      now.sealing.Sealed index region ∧
      SlotTable.shape now.slots <+: SlotTable.shape now.sealing.slots ∧
      ∀ table, base.tableIndex = some table → index = table ∨
        index ≠ table ∧ ∃ own, now.sealing.slots[table]? = some (.free own false) := by
  obtain ⟨soundNow, grown⟩ := run.grows sound filled
  have filledNow := grown.filled filled
  obtain ⟨_, _, onward⟩ := grown.advances
  obtain ⟨_, _, sealing⟩ := advances_sealing soundNow filledNow dirty stored
  obtain ⟨ensured, _, index, region, own, reserved, here, same, sealed⟩ :=
    flush_eq_sealing soundNow dirty stored
  obtain ⟨agrees, placed⟩ := ensureTable_ok soundNow filledNow dirty grows ensured
  have whole := onward.trans sealing
  have fresh := whole.laid [] (laid_of_restorable sound restorable)
  -- no region is lost where an index is left for the table
  have kept (lost : List Span) (full : lost ≠ [] → now.sealing.slots.length = SlotTable.indexLimit) :
      lost = [] := by
    by_contra some
    exact absurd (full some) (Nat.ne_of_lt sealed.limited)
  have none := kept _ whole.full
  rw [none] at fresh
  have tiles := whole.tiles
  rw [none, List.append_nil] at tiles
  refine ⟨_, index, region, ⟨whole.shape, tiles, fresh, ?_⟩, sealed, ⟨_, sealing.shape.symm⟩, ?_⟩
  · intro pos count clear
    obtain ⟨still, before⟩ := grown.untouched pos count clear
    have below := still.1
    have file : now.sealing.file = now.ensureTable.2.file := by
      rw [same, sealTable_eq here]
    rw [file, agrees.same pos count (by omega), before]
  · intro table owned
    have held : now.tableIndex = some table := grown.table.trans owned
    rcases placed with stays | leaves
    · rw [stays, held] at reserved
      exact Or.inl (Option.some.inj reserved).symm
    · obtain ⟨away, free, found⟩ := leaves table held
      have different : index ≠ table := fun equal => away (equal ▸ reserved)
      refine Or.inr ⟨different, free, ?_⟩
      rw [same, sealTable_eq here]
      simp only
      rw [List.getElem?_set_ne different, found]

end SlotStore.Container
