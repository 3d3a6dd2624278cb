import SlotStore.Proofs.Archive.Writing
import SlotStore.Proofs.Container.Entries

/-!
Flushing an archive. A flush changes no blob, whether it succeeds or not. One that succeeds stores
anchor and header table as they describe the catalog, and leaves nothing unsaved.
-/

namespace SlotStore.Archive

variable {archive : Archive} {map : KeyMap}

theorem Holds.rootSlot_not_mem (holds : archive.Holds map) :
    archive.rootSlot ∉ archive.headerTable.toList ∧ archive.rootSlot ∉ archive.catalog.slots := by
  have apart := (List.nodup_cons.mp holds.distinct).1
  simpa only [List.mem_append, not_or] using apart

theorem Holds.headerTable_not_mem (holds : archive.Holds map) {slot : Nat}
    (named : archive.headerTable = some slot) : slot ∉ archive.catalog.slots := by
  have apart := (List.nodup_append.mp (List.nodup_cons.mp holds.distinct).2).2.2
  exact fun member => apart slot (by simp [named]) slot member rfl

theorem slot_mem_of_lookup? {key : ContentKey} {entry : ArchiveEntry}
    (found : archive.catalog.lookup? key = some entry) : entry.slot ∈ archive.catalog.slots :=
  List.mem_map_of_mem (Catalog.mem_of_lookup? found).1

theorem Holds.listed (holds : archive.Holds map) {slot : Nat} (member : slot ∈ archive.owned) :
    slot ∈ archive.container.entries :=
  (Container.mem_entries_iff_live holds.sound).mpr (holds.live slot member)

/-- Filling a slot in use keeps all of them live, and the contents of the others. -/
theorem Holds.fill_frame (holds : archive.Holds map) (slot : Nat) (data : Bytes) :
    (archive.container.fill slot data).2.Sound ∧
      (archive.container.fill slot data).2.root = archive.container.root ∧
      ∀ other ∈ archive.owned,
        (∃ region, (archive.container.fill slot data).2.liveRegion other = .ok region) ∧
          (other ≠ slot → (archive.container.fill slot data).2.read other =
            archive.container.read other) := by
  have apart : slot ∉ archive.owned.filter (· ≠ slot) := by simp
  have keeps := Container.keeps_fill holds.sound apart data
  refine ⟨keeps.sound, keeps.root, fun other member => ⟨?_, fun different => ?_⟩⟩
  · have still := (Container.entries_fill slot data).mem_iff.mpr (holds.listed member)
    exact (Container.mem_entries_iff_live keeps.sound).mp still
  · exact (holds.read keeps (List.mem_filter.mpr ⟨member, by simpa using different⟩) member).2

/-- The slots of the bookkeeping may be filled while the archive is marked as changed. -/
theorem Holds.refill (holds : archive.Holds map) (dirty : archive.dirty = true) {slot : Nat}
    (unnamed : slot ∉ archive.catalog.slots) (data : Bytes) :
    Holds { archive with container := (archive.container.fill slot data).2 } map := by
  obtain ⟨sound, root, frame⟩ := holds.fill_frame slot data
  exact {
    sound := sound
    anchored := root.trans holds.anchored
    distinct := holds.distinct
    live := fun other member => (frame other member).1
    sorted := holds.sorted
    contents := by
      intro key
      refine related_of_related (holds.contents key) fun entry blob found backs => ?_
      have different : entry.slot ≠ slot := fun same => unnamed (same ▸ slot_mem_of_lookup? found)
      exact backs.keep ((frame entry.slot (mem_owned_of_lookup? found)).2 different)
    recorded := fun clean => absurd (dirty.symm.trans clean) (by simp)
    legal := holds.legal }

theorem Holds.moveTable (holds : archive.Holds map) (dirty : archive.dirty = true) {slot : Nat}
    {new : Container}
    (keeps : Container.Keeps (archive.rootSlot :: archive.catalog.slots) archive.container new)
    (apart : slot ∉ archive.owned) (live : ∃ region, new.liveRegion slot = .ok region) :
    Holds { archive with container := new, headerTable := some slot } map := by
  have sublist : (archive.rootSlot :: archive.catalog.slots).Sublist archive.owned :=
    (List.sublist_append_right ..).cons_cons _
  have spared (other : Nat) (member : other ∈ archive.rootSlot :: archive.catalog.slots) :=
    holds.read keeps member (sublist.subset member)
  have perm : (owned { archive with container := new, headerTable := some slot }).Perm
      (slot :: archive.rootSlot :: archive.catalog.slots) := List.Perm.swap ..
  exact {
    sound := keeps.sound
    anchored := keeps.root.trans holds.anchored
    distinct := by
      refine perm.nodup_iff.mpr (List.nodup_cons.mpr ⟨fun member => ?_, holds.distinct.sublist sublist⟩)
      exact apart (sublist.subset member)
    live := by
      intro other member
      rcases List.mem_cons.mp (perm.mem_iff.mp member) with rfl | kept
      · exact live
      · exact (spared other kept).1
    sorted := holds.sorted
    contents := by
      intro key
      refine related_of_related (holds.contents key) fun entry blob found backs => ?_
      exact backs.keep (spared entry.slot (List.mem_cons_of_mem _ (slot_mem_of_lookup? found))).2
    recorded := fun clean => absurd (dirty.symm.trans clean) (by simp)
    legal := holds.legal }

theorem rootSlot_subset_owned (archive : Archive) :
    archive.rootSlot :: archive.catalog.slots ⊆ archive.owned :=
  ((List.sublist_append_right ..).cons_cons _).subset

/-- The container once the header table has left its old slot, if it had one. -/
def leaveTable (archive : Archive) (container : Container) : Container :=
  archive.headerTable.elim container fun old => (container.release old).2

/-- Room for the header table is there already, or cannot be had, or is in a new slot, for which the
old one is given up. -/
theorem Holds.ensureHeaderTable_cases (holds : archive.Holds map) :
    (archive.ensureHeaderTable = (.ok (), archive) ∧
      (archive.headerTable = none ∧ archive.catalog = [] ∨ ∃ slot region,
        archive.headerTable = some slot ∧ archive.container.liveRegion slot = .ok region ∧
          archive.catalog.length * HashRecord.width ≤ region.capacity)) ∨
    (∃ fault new, archive.container.newEntry
        (archive.settings.headerTableRecords archive.catalog.length * HashRecord.width) =
          (.error fault, new) ∧
      archive.ensureHeaderTable = (.error fault, { archive with container := new })) ∨
    ∃ slot new, archive.container.newEntry
        (archive.settings.headerTableRecords archive.catalog.length * HashRecord.width) =
          (.ok slot, new) ∧
      archive.ensureHeaderTable = (.ok (), { archive with
        container := archive.leaveTable new, headerTable := some slot }) := by
  unfold Archive.ensureHeaderTable leaveTable
  cases named : archive.headerTable with
  | none =>
    simp only [Option.elim_none]
    cases empty : archive.catalog.isEmpty with
    | true => exact Or.inl ⟨rfl, Or.inl ⟨trivial, List.isEmpty_iff.mp empty⟩⟩
    | false =>
      rcases archive.container.newEntry (archive.settings.headerTableRecords
        archive.catalog.length * HashRecord.width) with ⟨fault | slot, new⟩
      · exact Or.inr (Or.inl ⟨fault, new, rfl, rfl⟩)
      · exact Or.inr (Or.inr ⟨slot, new, rfl, rfl⟩)
  | some old =>
    obtain ⟨region, live⟩ := holds.live old (by simp [owned, named])
    have capacity := (Container.entry_of_live live).2
    simp only [capacity, Except.map, Option.elim_some]
    by_cases room : archive.catalog.length * HashRecord.width ≤ region.capacity
    · exact Or.inl ⟨by simp only [room, decide_true], Or.inr ⟨old, region, rfl, live, room⟩⟩
    · simp only [room, decide_false]
      have spares := Container.Spares.newEntry holds.sound
        (archive.settings.headerTableRecords archive.catalog.length * HashRecord.width) old
      rcases made : archive.container.newEntry (archive.settings.headerTableRecords
        archive.catalog.length * HashRecord.width) with ⟨fault | slot, new⟩
      · exact Or.inr (Or.inl ⟨fault, new, rfl, rfl⟩)
      · rw [made] at spares
        have released := Container.release_of_live (spares region live).1
        refine Or.inr (Or.inr ⟨slot, new, rfl, ?_⟩)
        rcases outcome : new.release old with ⟨result, left⟩
        rw [outcome] at released
        cases released
        simp only [outcome]

/-- A slot that is handed out for the header table serves nothing else. Giving the old one up does
no harm to the new one, nor to the anchor and the entries. -/
theorem Holds.leaveTable (holds : archive.Holds map) {size slot : Nat} {new : Container}
    (made : archive.container.newEntry size = (.ok slot, new)) :
    Container.Keeps (archive.rootSlot :: archive.catalog.slots) archive.container
        (archive.leaveTable new) ∧
      slot ∉ archive.owned ∧
        ∃ region, (archive.leaveTable new).liveRegion slot = .ok region ∧ size ≤ region.capacity := by
  have keeps := Container.keeps_newEntry holds.sound archive.owned size
  rw [made] at keeps
  obtain ⟨unheld, region, live, room⟩ := Container.newEntry_live holds.sound made
  have apart : slot ∉ archive.owned := by
    intro member
    obtain ⟨held, alive⟩ := holds.live slot member
    exact unheld held alive
  have kept := keeps.mono archive.rootSlot_subset_owned
  unfold Archive.leaveTable
  cases named : archive.headerTable with
  | none => exact ⟨kept, apart, region, live, room⟩
  | some old =>
    have different : old ≠ slot := fun same => apart (by simp [owned, named, same])
    have unused : old ∉ slot :: archive.rootSlot :: archive.catalog.slots := by
      have anchor := holds.rootSlot_not_mem.1
      have entries := holds.headerTable_not_mem named
      simp only [named, Option.toList_some, List.mem_singleton] at anchor
      simp only [List.mem_cons, not_or]
      exact ⟨different, Ne.symm anchor, entries⟩
    have releasing := Container.keeps_release keeps.sound unused
    have still := (releasing.read keeps.sound (List.mem_cons_self ..) live).1
    exact ⟨kept.trans (releasing.mono (List.subset_cons_self ..)), apart, region, still, room⟩

theorem Holds.relocate (holds : archive.Holds map) (dirty : archive.dirty = true) {size slot : Nat}
    {new : Container} (made : archive.container.newEntry size = (.ok slot, new)) :
    Holds { archive with container := archive.leaveTable new, headerTable := some slot } map := by
  obtain ⟨keeps, apart, region, live, _⟩ := holds.leaveTable made
  exact holds.moveTable dirty keeps apart ⟨region, live⟩

/-- Making room for the header table changes no blob. Without a table there are no entries. -/
theorem Holds.ensureHeaderTable (holds : archive.Holds map) (dirty : archive.dirty = true) :
    archive.ensureHeaderTable.2.Holds map ∧ archive.ensureHeaderTable.2.dirty = true ∧
      archive.ensureHeaderTable.2.catalog = archive.catalog ∧
        (archive.ensureHeaderTable.1 = .ok () → archive.ensureHeaderTable.2.headerTable = none →
          archive.catalog = []) := by
  rcases holds.ensureHeaderTable_cases with
    ⟨ready, roomy⟩ | ⟨fault, new, refused, failed⟩ | ⟨slot, new, made, moved⟩
  · rw [ready]
    refine ⟨holds, dirty, rfl, fun _ none => ?_⟩
    rcases roomy with ⟨_, empty⟩ | ⟨slot, _, named, _⟩
    · exact empty
    · cases none.symm.trans named
  · have keeps := Container.keeps_newEntry holds.sound archive.owned
      (archive.settings.headerTableRecords archive.catalog.length * HashRecord.width)
    rw [refused] at keeps
    rw [failed]
    exact ⟨holds.step keeps, dirty, rfl, nofun⟩
  · rw [moved]
    exact ⟨holds.relocate dirty made, dirty, rfl, nofun⟩

theorem Holds.clean (holds : archive.Holds map) (recorded : archive.Recorded) :
    Holds { archive with dirty := false } map where
  sound := holds.sound
  anchored := holds.anchored
  distinct := holds.distinct
  live := holds.live
  sorted := holds.sorted
  contents := holds.contents
  recorded := fun _ => ⟨recorded.few, recorded.anchor, recorded.table⟩
  legal := holds.legal

def anchor (archive : Archive) : RootRecord :=
  RootRecord.ofArchive archive.catalog.length (archive.headerTable.getD 0)

/-- The container once the header table is filled, if there is one. -/
def tableFilled (archive : Archive) : Container :=
  archive.headerTable.elim archive.container fun slot =>
    (archive.container.fill slot archive.catalog.encode).2

theorem fillTables_cases (archive : Archive) :
    (∃ slot fault, archive.headerTable = some slot ∧
      (archive.container.fill slot archive.catalog.encode).1 = .error fault ∧
        archive.fillTables = (.error fault, { archive with container := archive.tableFilled })) ∨
    (∀ slot, archive.headerTable = some slot →
        (archive.container.fill slot archive.catalog.encode).1 = .ok ()) ∧
      archive.fillTables = ((archive.tableFilled.fill archive.rootSlot archive.anchor.encode).1,
        { archive with
          container := (archive.tableFilled.fill archive.rootSlot archive.anchor.encode).2 }) := by
  unfold Archive.fillTables tableFilled anchor
  cases named : archive.headerTable with
  | none => exact Or.inr ⟨nofun, rfl⟩
  | some slot =>
    simp only [Option.elim_some]
    rcases outcome : archive.container.fill slot archive.catalog.encode with ⟨fault | _, between⟩
    · exact Or.inl ⟨slot, fault, rfl, by rw [outcome], rfl⟩
    · refine Or.inr ⟨fun other same => ?_, rfl⟩
      cases same
      rw [outcome]

theorem tableFilled_of_none (none : archive.headerTable = none) :
    archive.tableFilled = archive.container := by
  rw [tableFilled, none]
  rfl

theorem tableFilled_of_some {slot : Nat} (named : archive.headerTable = some slot) :
    archive.tableFilled = (archive.container.fill slot archive.catalog.encode).2 := by
  rw [tableFilled, named]
  rfl

theorem Holds.tableFilled (holds : archive.Holds map) (dirty : archive.dirty = true) :
    Holds { archive with container := archive.tableFilled } map := by
  rcases Option.eq_none_or_eq_some archive.headerTable with none | ⟨slot, named⟩
  · rw [tableFilled_of_none none]
    exact holds
  · rw [tableFilled_of_some named]
    exact holds.refill dirty (holds.headerTable_not_mem named) archive.catalog.encode

theorem Holds.fillTables_any (holds : archive.Holds map) (dirty : archive.dirty = true) :
    archive.fillTables.2.Holds map ∧ archive.fillTables.2.dirty = true := by
  have between := holds.tableFilled dirty
  rcases archive.fillTables_cases with ⟨_, _, _, _, failed⟩ | ⟨_, filled⟩
  · rw [failed]
    exact ⟨between, dirty⟩
  · rw [filled]
    exact ⟨between.refill dirty between.rootSlot_not_mem.2 _, dirty⟩

theorem Holds.fillTables (holds : archive.Holds map) (dirty : archive.dirty = true)
    (few : archive.catalog.length < 2 ^ 32)
    (listed : archive.headerTable = none → archive.catalog = []) {next : Archive}
    (filled : archive.fillTables = (.ok (), next)) :
    Holds { next with dirty := false } map := by
  have after := holds.fillTables_any dirty
  rw [filled] at after
  rcases archive.fillTables_cases with ⟨_, _, _, _, failed⟩ | ⟨table, done⟩
  · rw [filled] at failed
    cases failed
  · have between := holds.tableFilled dirty
    obtain ⟨result, rfl⟩ := Prod.mk.inj (filled.symm.trans done)
    obtain ⟨_, anchor⟩ := Container.read_of_fill_ok (Prod.ext result.symm rfl)
    refine after.1.clean ⟨few, anchor, fun some => ?_⟩
    rcases Option.eq_none_or_eq_some archive.headerTable with none | ⟨slot, named⟩
    · exact absurd (listed none) some
    · obtain ⟨_, rows⟩ := Container.read_of_fill_ok
        (Prod.ext (table slot named) (tableFilled_of_some named).symm)
      have different : slot ≠ archive.rootSlot := by
        have apart := holds.rootSlot_not_mem.1
        simpa [named, eq_comm] using apart
      have kept := ((between.fill_frame archive.rootSlot archive.anchor.encode).2.2 slot
        (by simp [owned, named])).2 different
      exact ⟨slot, named, kept.trans rows⟩

/-- The tables are written, or the archive holds the same blobs and is still marked as changed. -/
theorem Holds.writeTables_any (holds : archive.Holds map) (dirty : archive.dirty = true) :
    archive.writeTables.2.Holds map ∧ archive.writeTables.2.dirty = true := by
  unfold Archive.writeTables
  split
  · exact ⟨holds, dirty⟩
  · obtain ⟨ready, still, _⟩ := holds.ensureHeaderTable dirty
    rcases ensured : archive.ensureHeaderTable with ⟨_ | _, roomy⟩
    · rw [ensured] at ready still
      exact ⟨ready, still⟩
    · rw [ensured] at ready still
      exact ready.fillTables_any still

theorem Holds.writeTables (holds : archive.Holds map) (dirty : archive.dirty = true)
    {next : Archive} (written : archive.writeTables = (.ok (), next)) :
    Holds { next with dirty := false } map := by
  unfold Archive.writeTables at written
  split at written
  · cases written
  · rename_i few
    obtain ⟨ready, still, same, listed⟩ := holds.ensureHeaderTable dirty
    rcases ensured : archive.ensureHeaderTable with ⟨_ | _, roomy⟩
    · rw [ensured] at written
      cases written
    · rw [ensured] at ready still same listed written
      exact ready.fillTables still (by rw [same]; omega)
        (fun none => same.trans (listed rfl none)) written

/-- What a flush does: it fails over the tables, or stores them and flushes the container. -/
theorem flush_cases (archive : Archive) :
    (∃ fault, archive.dirty = true ∧ archive.writeTables.1 = .error fault ∧
      archive.flush = (.error fault, archive.writeTables.2)) ∨
    ∃ ready, (archive.dirty = false ∧ ready = archive ∨ archive.dirty = true ∧
        archive.writeTables.1 = .ok () ∧ ready = { archive.writeTables.2 with dirty := false }) ∧
      archive.flush = (ready.container.flush.1,
        { ready with container := ready.container.flush.2 }) := by
  unfold Archive.flush
  cases dirty : archive.dirty with
  | false => exact Or.inr ⟨archive, Or.inl ⟨rfl, rfl⟩, rfl⟩
  | true =>
    rcases archive.writeTables with ⟨fault | _, ready⟩
    · exact Or.inl ⟨fault, rfl, rfl, rfl⟩
    · exact Or.inr ⟨_, Or.inr ⟨rfl, rfl, rfl⟩, rfl⟩

theorem Holds.readied (holds : archive.Holds map) {ready : Archive}
    (readied : archive.dirty = false ∧ ready = archive ∨ archive.dirty = true ∧
      archive.writeTables.1 = .ok () ∧ ready = { archive.writeTables.2 with dirty := false }) :
    ready.Holds map ∧ ready.dirty = false := by
  rcases readied with ⟨clean, rfl⟩ | ⟨dirty, written, rfl⟩
  · exact ⟨holds, clean⟩
  · exact ⟨holds.writeTables dirty (Prod.ext written rfl), rfl⟩

theorem Holds.flush_any (holds : archive.Holds map) : archive.flush.2.Holds map := by
  rcases archive.flush_cases with ⟨_, dirty, _, failed⟩ | ⟨ready, readied, stored⟩
  · rw [failed]
    exact (holds.writeTables_any dirty).1
  · have kept := (holds.readied readied).1
    rw [stored]
    exact kept.step (Container.keeps_flush kept.sound _)

/-- A flush that succeeds keeps the map and leaves nothing unsaved. -/
theorem Holds.flush (holds : archive.Holds map) {next : Archive}
    (flushed : archive.flush = (.ok (), next)) : next.Holds map ∧ next.unsaved = false := by
  have kept := holds.flush_any
  rw [flushed] at kept
  refine ⟨kept, ?_⟩
  rcases archive.flush_cases with ⟨_, _, _, failed⟩ | ⟨ready, readied, stored⟩
  · rw [flushed] at failed
    cases failed
  · obtain ⟨ok, clean⟩ := holds.readied readied
    obtain ⟨done, rfl⟩ := Prod.mk.inj (flushed.symm.trans stored)
    have stored := (Container.flush_ok ok.sound (Prod.ext done.symm rfl)).1
    simp [unsaved, clean, stored]

end SlotStore.Archive
