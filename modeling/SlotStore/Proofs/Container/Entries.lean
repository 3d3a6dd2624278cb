import SlotStore.Proofs.Container.Keeping

/-!
The list of live user slots. An allocation that succeeds adds the slot that it answers, a release
takes one away, and what else happens to a container leaves the list as it is. So whoever knows the
slots that were handed out knows all of them.
-/

namespace SlotStore

/-- The slot is live, whoever may use it. -/
def SlotTable.LiveAt (table : SlotTable) (slot : Nat) : Prop :=
  ∃ region, table[slot]? = some (.live region)

theorem SlotTable.liveAt_set {table : SlotTable} {slot : Nat} (bound : slot < table.length)
    (state : SlotState) (other : Nat) : LiveAt (table.set slot state) other ↔
      if other = slot then ∃ region, state = .live region else table.LiveAt other := by
  unfold LiveAt
  split
  · rename_i same
    subst same
    simp [bound]
  · rename_i different
    rw [List.getElem?_set_ne (Ne.symm different)]

theorem SlotTable.liveAt_acquire {table grown : SlotTable} {index : Nat}
    (taken : table.acquire = .ok (index, grown)) (slot : Nat) :
    grown.LiveAt slot ↔ table.LiveAt slot := by
  rcases acquire_ok taken with ⟨_, rfl⟩ | ⟨_, _, _, rfl⟩
  · rfl
  · unfold LiveAt
    rcases Nat.lt_or_ge slot table.length with inside | beyond
    · rw [List.getElem?_append_left inside]
    · rw [List.getElem?_append_right beyond, List.getElem?_eq_none beyond]
      refine iff_of_false ?_ (by simp)
      rintro ⟨region, found⟩
      cases List.mem_singleton.mp (List.mem_of_getElem? found)

namespace Container

variable {container new : Container} {slot : Nat}

theorem mem_entries_iff : slot ∈ container.entries ↔
    SlotTable.LiveAt container.slots slot ∧ container.tableIndex ≠ some slot := by
  unfold entries
  rw [SlotTable.mem_indicesOf_iff]
  constructor
  · rintro ⟨state, found, passed⟩
    obtain ⟨live, user⟩ : state.isLive = true ∧ container.tableIndex ≠ some slot := by
      simpa using passed
    cases state with
    | live region => exact ⟨⟨region, found⟩, user⟩
    | unused => cases live
    | free region deletable => cases live
  · rintro ⟨⟨region, found⟩, user⟩
    exact ⟨.live region, found, by simpa [SlotState.isLive] using user⟩

theorem mem_entries_iff_live (sound : container.Sound) :
    slot ∈ container.entries ↔ ∃ region, container.liveRegion slot = .ok region := by
  obtain ⟨_, laid, _⟩ := sound.laid
  simp only [mem_entries_iff, liveRegion_eq_ok_iff]
  constructor
  · rintro ⟨⟨region, found⟩, user⟩
    exact ⟨region, Nat.ne_of_gt (laid.pos found rfl), user, found⟩
  · rintro ⟨region, _, user, found⟩
    exact ⟨⟨region, found⟩, user⟩

theorem nodup_entries (container : Container) : container.entries.Nodup :=
  (SlotTable.pairwise_indicesOf _ _).imp Nat.ne_of_lt

theorem entries_perm (same : ∀ slot, slot ∈ new.entries ↔ slot ∈ container.entries) :
    new.entries.Perm container.entries :=
  (List.perm_ext_iff_of_nodup new.nodup_entries container.nodup_entries).mpr same

theorem entries_congr
    (slots : ∀ slot, SlotTable.LiveAt new.slots slot ↔ SlotTable.LiveAt container.slots slot)
    (table : new.tableIndex = container.tableIndex) : new.entries.Perm container.entries :=
  entries_perm fun slot => by rw [mem_entries_iff, mem_entries_iff, slots, table]

theorem entries_perm_cons (fresh : ¬SlotTable.LiveAt container.slots slot)
    (slots : ∀ other, SlotTable.LiveAt new.slots other ↔
      other = slot ∨ SlotTable.LiveAt container.slots other)
    (table : new.tableIndex = container.tableIndex) (user : container.tableIndex ≠ some slot) :
    new.entries.Perm (slot :: container.entries) := by
  refine (List.perm_ext_iff_of_nodup new.nodup_entries (List.nodup_cons.mpr
    ⟨fun member => fresh (mem_entries_iff.mp member).1, container.nodup_entries⟩)).mpr fun other => ?_
  rw [List.mem_cons, mem_entries_iff, mem_entries_iff, slots, table]
  constructor
  · rintro ⟨same | live, free⟩
    · exact Or.inl same
    · exact Or.inr ⟨live, free⟩
  · rintro (same | ⟨live, free⟩)
    · exact ⟨Or.inl same, same ▸ user⟩
    · exact ⟨Or.inr live, free⟩

theorem entries_setState {before after : Region}
    (here : container.slots[slot]? = some (.live before)) :
    (container.setState slot (.live after)).entries.Perm container.entries := by
  have bound := (List.getElem?_eq_some_iff.mp here).1
  refine entries_congr (fun other => (SlotTable.liveAt_set bound _ other).trans ?_) rfl
  split
  · rename_i same
    subst same
    exact iff_of_true ⟨after, rfl⟩ ⟨before, here⟩
  · rfl

theorem entries_rewrite {region : Region} (here : container.slots[slot]? = some (.live region))
    (file : File) (size : Nat) :
    ({ container with file := file }.setSize slot size).entries.Perm container.entries := by
  rw [setSize_eq { container with file := file } here rfl]
  exact entries_setState here

theorem entries_fill (slot : Nat) (data : Bytes) :
    (container.fill slot data).2.entries.Perm container.entries := by
  rcases container.fill_cases slot data with ⟨_, refused⟩ | ⟨writer, moved, file, made, inside, filled⟩
  · rw [refused]
  · obtain ⟨region, live, rfl⟩ := writer_eq_ok_iff.mp made
    rw [filled, closeWriter, inside.index]
    exact entries_rewrite (liveRegion_eq_ok_iff.mp live).2.2 file _

theorem entries_write (slot : Nat) (data : Bytes) (pos : Nat) :
    (container.write slot data pos).2.entries.Perm container.entries := by
  rcases container.write_cases slot data pos with ⟨_, refused⟩ | ⟨region, live, _, written⟩
  · rw [refused]
  · rw [written]
    exact entries_rewrite (liveRegion_eq_ok_iff.mp live).2.2 _ _

theorem entries_setRoot (slot : Nat) :
    (container.setRoot slot).2.entries.Perm container.entries := by
  rcases container.setRoot_cases slot with ⟨_, refused⟩ | ⟨_, _, anchored⟩
  · rw [refused]
  · rw [anchored]
    exact entries_congr (fun _ => Iff.rfl) rfl

theorem entries_reloaded (container : Container) (settings : ContainerSettings) :
    (container.reloaded settings).entries.Perm container.entries :=
  entries_congr (fun slot => by
    simp only [SlotTable.LiveAt, Container.reloaded, List.getElem?_map, Option.map_eq_some_iff,
      SlotState.unmarked_eq_live_iff, exists_eq_right]) rfl

theorem liveAt_newEntry (filled : container.slots ≠ []) {size : Nat}
    (made : container.newEntry size = (.ok slot, new)) (other : Nat) :
    SlotTable.LiveAt new.slots other ↔
      other = slot ∨ SlotTable.LiveAt container.slots other := by
  have joined {table : SlotTable} (bound : slot < table.length) (region : Region) :
      SlotTable.LiveAt (table.set slot (.live region)) other ↔
        other = slot ∨ SlotTable.LiveAt table other := by
    rw [SlotTable.liveAt_set bound]
    split
    · rename_i same
      exact iff_of_true ⟨region, rfl⟩ (Or.inl same)
    · rename_i different
      exact (or_iff_right different).symm
  rcases container.newEntry_cases size with
    ⟨_, refused⟩ | ⟨index, region, _, found, _, reused⟩ | ⟨capacity, _, _, appended⟩
  · rw [made] at refused
    cases refused
  · rw [made] at reused
    cases reused
    exact joined (List.getElem?_eq_some_iff.mp found).1 _
  · rcases (container.extended capacity).placeRegion_cases ⟨container.endOfFile, 0, capacity⟩ with
      ⟨index, slots, taken, placed⟩ | ⟨_, refused⟩
    · rw [made, placed] at appended
      cases appended
      rw [extended_slots] at taken
      have unused := (SlotTable.acquired filled taken).unused
      exact (joined (List.getElem?_eq_some_iff.mp unused).1 _).trans
        (or_congr_right (SlotTable.liveAt_acquire taken other))
    · rw [made, refused] at appended
      cases appended

theorem slots_newEntry_error {size : Nat} {fault : Fault}
    (refused : container.newEntry size = (.error fault, new)) : new.slots = container.slots := by
  rcases container.newEntry_cases size with
    ⟨_, same⟩ | ⟨_, _, _, _, _, reused⟩ | ⟨capacity, _, _, appended⟩
  · rw [refused] at same
    cases same
    rfl
  · rw [refused] at reused
    cases reused
  · rcases (container.extended capacity).placeRegion_cases ⟨container.endOfFile, 0, capacity⟩ with
      ⟨_, _, _, placed⟩ | ⟨_, full⟩
    · rw [refused, placed] at appended
      cases appended
    · rw [refused, full] at appended
      cases appended
      exact extended_slots container capacity

theorem entries_newEntry_error {size : Nat} {fault : Fault}
    (refused : container.newEntry size = (.error fault, new)) :
    new.entries.Perm container.entries := by
  have table := (newEntry_frame container size).1
  rw [refused] at table
  exact entries_congr (fun _ => by rw [slots_newEntry_error refused]) table

theorem entries_newEntry (sound : container.Sound) {size : Nat}
    (made : container.newEntry size = (.ok slot, new)) :
    new.entries.Perm (slot :: container.entries) := by
  obtain ⟨fresh, _⟩ := newEntry_ok sound made
  have table := (newEntry_frame container size).1
  rw [made] at table
  refine entries_perm_cons (fun ⟨region, live⟩ => fresh region live)
    (liveAt_newEntry sound.filled made) table fun reserved => ?_
  obtain ⟨region, live⟩ := sound.table slot reserved
  exact fresh region live

theorem entries_release {region : Region} (live : container.liveRegion slot = .ok region) :
    container.entries.Perm (slot :: (container.release slot).2.entries) := by
  obtain ⟨nonzero, user, here⟩ := liveRegion_eq_ok_iff.mp live
  have bound := (List.getElem?_eq_some_iff.mp here).1
  have named : container.slotOf slot = .ok (.live region) :=
    slotOf_eq_ok_iff.mpr ⟨nonzero, user, here, by simp⟩
  have released : (container.release slot).2 = container.setState slot (.free region false) := by
    simp only [release, named]
  have left (other : Nat) := SlotTable.liveAt_set bound (.free region false) other
  rw [released]
  refine entries_perm_cons (fun live => ?_) (fun other => ?_) rfl user
  · have gone := (left slot).mp live
    simp at gone
  · refine (Iff.trans ?_ (or_congr_right (left other).symm))
    split
    · rename_i same
      exact iff_of_true (same ▸ ⟨region, here⟩) (Or.inl same)
    · rename_i different
      exact (or_iff_right different).symm

theorem entries_releaseTable (sound : container.Sound) :
    container.releaseTable.entries.Perm container.entries := by
  rcases releaseTable_cases sound with ⟨_, same⟩ | ⟨index, region, reserved, here, released⟩
  · rw [same]
  · rw [released]
    have bound := (List.getElem?_eq_some_iff.mp here).1
    refine entries_perm fun slot => ?_
    rw [mem_entries_iff, mem_entries_iff, reserved]
    simp only [SlotTable.liveAt_set bound, reduceCtorEq, exists_false, ne_eq, not_false_eq_true,
      and_true, Option.some.injEq]
    split
    · rename_i same
      simp [same]
    · rename_i different
      exact (and_iff_left (Ne.symm different)).symm

theorem entries_moveTable (sound : container.Sound) (dirty : container.dirty = true) :
    container.moveTable.2.entries.Perm container.entries := by
  have released := sound.releaseTable dirty
  have before := entries_releaseTable sound
  obtain ⟨size, ⟨_, failed, refused⟩ | ⟨index, made, moved⟩⟩ := container.moveTable_cases
  · rw [refused]
    exact (entries_newEntry_error failed).trans before
  · obtain ⟨fresh, _⟩ := newEntry_ok released made
    have grown := liveAt_newEntry released.filled made
    rw [moved]
    refine (entries_perm fun slot => ?_).trans before
    rw [mem_entries_iff, mem_entries_iff, releaseTable_tableIndex]
    simp only [grown, ne_eq, Option.some.injEq, reduceCtorEq, not_false_eq_true, and_true]
    constructor
    · rintro ⟨same | live, other⟩
      · exact absurd same.symm other
      · exact live
    · rintro ⟨region, live⟩
      exact ⟨Or.inr ⟨region, live⟩, fun same => fresh region (same ▸ live)⟩

theorem entries_settleTable (sound : container.Sound) (dirty : container.dirty = true)
    (budget : Nat) : (container.settleTable budget).2.entries.Perm container.entries := by
  have settled : Moved container (container.settleTable budget).2 ∧
      (container.settleTable budget).2.entries.Perm container.entries :=
    of_settleTable (motive := fun new => Moved container new ∧ new.entries.Perm container.entries)
      (fun _ ⟨moved, listed⟩ => ⟨moved.trans (moved_moveTable moved.sound moved.dirty),
        (entries_moveTable moved.sound moved.dirty).trans listed⟩)
      ⟨Moved.refl sound dirty, .refl _⟩ budget
  exact settled.2

theorem entries_sealTable {index : Nat} {region : Region}
    (here : container.slots[index]? = some (.live region)) :
    (container.sealTable index region).entries.Perm container.entries := by
  rw [sealTable_eq here]
  exact entries_setState here

/-- A flush, whether it succeeds or not, leaves the list of live user slots alone. -/
theorem entries_flush (sound : container.Sound) :
    container.flush.2.entries.Perm container.entries := by
  cases dirty : container.dirty with
  | false => rw [flush_of_clean dirty]
  | true =>
    have ensured : container.ensureTable.2.entries.Perm container.entries :=
      entries_settleTable sound dirty _
    rcases flush_ensured sound dirty with ⟨_, failed⟩ | ⟨index, region, _, _, here, _, written⟩
    · rw [failed]
      exact ensured
    · rw [written]
      exact (entries_sealTable here).trans ensured

end Container

end SlotStore
