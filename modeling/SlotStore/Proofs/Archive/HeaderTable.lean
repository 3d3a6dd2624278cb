import SlotStore.Proofs.Archive.Ownership
import SlotStore.Proofs.Container.TableGrowth

/-!
The header table. Unless the growth factor is a NaN, a header table has room for every entry, so
storing it fails only where no slot can be had for it. The anchor then never names a header table
that was given up, also when a flush has failed.
-/

namespace SlotStore.Archive

variable {base : Container} {archive next : Archive} {map : KeyMap}

def Roomy (container : Container) (slot size : Nat) : Prop :=
  ∃ region, container.liveRegion slot = .ok region ∧ size ≤ region.capacity

theorem Roomy.keep {container new : Container} {slot size : Nat}
    (roomy : Roomy container slot size) (spares : Container.Spares slot container new) :
    Roomy new slot size := by
  obtain ⟨region, live, room⟩ := roomy
  exact ⟨region, (spares region live).1, room⟩

/-- An offset or the number of slots is too large for the archive to get another header table. -/
def Crowded (archive : Archive) : Prop :=
  2 ^ 63 ≤ archive.container.endOfFile +
      archive.settings.headerTableRecords archive.catalog.length * HashRecord.width + 32 ∨
    SlotTable.indexLimit ≤ archive.container.slots.length

/-- Room for the header table is there, or cannot be had because the archive is crowded. -/
theorem Holds.ensureHeaderTable_roomy (holds : archive.Holds map) (dirty : archive.dirty = true)
    (large : archive.catalog.length ≤
      archive.settings.headerTableRecords archive.catalog.length) :
    (∃ excess new, archive.ensureHeaderTable =
        (.error (.overflow excess), { archive with container := new }) ∧
      Container.Keeps archive.owned archive.container new ∧ archive.Crowded) ∨
    ∃ table ready, archive.ensureHeaderTable =
        (.ok (), { archive with container := ready, headerTable := table }) ∧
      Holds { archive with container := ready, headerTable := table } map ∧
      Container.Keeps [archive.rootSlot] archive.container ready ∧
      (table = none → archive.catalog = []) ∧
      ∀ slot, table = some slot → Roomy ready slot (archive.catalog.length * HashRecord.width) := by
  rcases holds.ensureHeaderTable_cases with
    ⟨ready, roomy⟩ | ⟨fault, new, refused, failed⟩ | ⟨slot, new, made, moved⟩
  · refine Or.inr ⟨archive.headerTable, archive.container, ready, holds,
      Container.Keeps.refl holds.sound _, fun none => ?_, fun slot named => ?_⟩
    · rcases roomy with ⟨_, empty⟩ | ⟨_, _, some, _⟩
      · exact empty
      · cases none.symm.trans some
    · rcases roomy with ⟨none, _⟩ | ⟨_, region, some, live, room⟩
      · cases none.symm.trans named
      · cases some.symm.trans named
        exact ⟨region, live, room⟩
  · obtain ⟨excess, rfl⟩ := Container.overflow_of_newEntry refused
    have keeps := Container.keeps_newEntry holds.sound archive.owned
      (archive.settings.headerTableRecords archive.catalog.length * HashRecord.width)
    rw [refused] at keeps
    exact Or.inl ⟨excess, new, failed, keeps, Container.excess_of_newEntry refused⟩
  · obtain ⟨keeps, _, region, live, room⟩ := holds.leaveTable made
    refine Or.inr ⟨some slot, archive.leaveTable new, moved, holds.relocate dirty made,
      keeps.mono (by simp), nofun, fun other named => ?_⟩
    cases named
    exact ⟨region, live, (Nat.mul_le_mul_right _ large).trans room⟩

theorem Holds.fillTables_of_roomy (holds : archive.Holds map)
    (anchor : Roomy archive.container archive.rootSlot RootRecord.width)
    (table : ∀ slot, archive.headerTable = some slot →
      Roomy archive.container slot (archive.catalog.length * HashRecord.width)) :
    ∃ after, archive.fillTables = (.ok (), { archive with container := after }) ∧
      after.read archive.rootSlot = .ok archive.anchor.encode ∧
      ∀ slot, archive.headerTable = some slot →
        ∃ region, after.liveRegion slot = .ok region ∧
          region.size = archive.catalog.length * HashRecord.width := by
  have apart (slot : Nat) (named : archive.headerTable = some slot) : slot ≠ archive.rootSlot := by
    have other := holds.rootSlot_not_mem.1
    simpa [named, eq_comm] using other
  have between : archive.tableFilled.Sound ∧
      Container.Spares archive.rootSlot archive.container archive.tableFilled := by
    rcases Option.eq_none_or_eq_some archive.headerTable with none | ⟨slot, named⟩
    · rw [tableFilled_of_none none]
      exact ⟨holds.sound, Container.Spares.refl _ _⟩
    · rw [tableFilled_of_some named]
      exact ⟨holds.sound.fill _ _, Container.Spares.fill holds.sound _ (apart slot named)⟩
  obtain ⟨sound, spares⟩ := between
  obtain ⟨region, live, room⟩ := anchor.keep spares
  obtain ⟨_, anchored⟩ := Container.read_fill live
    (show archive.anchor.encode.length ≤ region.capacity by simpa using room)
  have accepted := congrArg Prod.fst (Container.fill_of_fits live
    (show archive.anchor.encode.length ≤ region.capacity by simpa using room))
  rcases archive.fillTables_cases with ⟨slot, fault, named, failed, _⟩ | ⟨_, filled⟩
  · obtain ⟨held, alive, fits⟩ := table slot named
    rw [Container.fill_of_fits alive (by simpa using fits)] at failed
    cases failed
  · rw [accepted] at filled
    refine ⟨_, filled, anchored, fun slot named => ?_⟩
    obtain ⟨held, alive, fits⟩ := table slot named
    have stored := (Container.read_fill alive
      (show archive.catalog.encode.length ≤ held.capacity by simpa using fits)).1
    rw [← tableFilled_of_some named] at stored
    have kept := (Container.Spares.fill sound archive.anchor.encode (apart slot named).symm _ stored).1
    exact ⟨_, kept, by simp⟩

/-- The anchor in the root slot names the header table that the archive has. -/
def Anchored (archive : Archive) : Prop :=
  ∃ count, archive.container.read archive.rootSlot =
    .ok (RootRecord.ofArchive count (archive.headerTable.getD 0)).encode

theorem Recorded.isAnchored (recorded : archive.Recorded) : archive.Anchored :=
  ⟨_, recorded.anchor⟩

theorem Anchored.roomy (anchored : archive.Anchored) (holds : archive.Holds map) :
    Roomy archive.container archive.rootSlot RootRecord.width := by
  obtain ⟨count, held⟩ := anchored
  obtain ⟨region, live⟩ := holds.live archive.rootSlot (List.mem_cons_self ..)
  obtain ⟨whole, room⟩ := Container.length_of_read holds.sound live held
  rw [RootRecord.length_encode] at whole
  exact ⟨region, live, whole ▸ room⟩

/-- Nothing of the bookkeeping is changed, in memory or in the root slot. -/
structure Undisturbed (archive next : Archive) : Prop where
  rootSlot : next.rootSlot = archive.rootSlot
  headerTable : next.headerTable = archive.headerTable
  settings : next.settings = archive.settings
  keeps : Container.Keeps [archive.rootSlot] archive.container next.container

theorem Anchored.keep (anchored : archive.Anchored) (holds : archive.Holds map)
    (undisturbed : Undisturbed archive next) : next.Anchored := by
  obtain ⟨count, held⟩ := anchored
  have same := (holds.read undisturbed.keeps (List.mem_singleton.mpr rfl)
    (List.mem_cons_self ..)).2
  refine ⟨count, ?_⟩
  rw [undisturbed.rootSlot, undisturbed.headerTable]
  exact same.trans held

theorem Holds.undisturbed (holds : archive.Holds map) : Undisturbed archive archive :=
  ⟨rfl, rfl, rfl, Container.Keeps.refl holds.sound _⟩

theorem undisturbed_of_keeps {new : Container}
    (keeps : Container.Keeps archive.owned archive.container new) :
    Undisturbed archive { archive with container := new } :=
  ⟨rfl, rfl, rfl, keeps.mono (by simp [owned])⟩

/-- The entry of a key may change with the container, as long as the slots beside it are spared. -/
theorem undisturbed_of_keeps_beside {key : ContentKey} {new : Container}
    (keeps : Container.Keeps (archive.ownedBeside key) archive.container new) (catalog : Catalog) :
    Undisturbed archive { archive with container := new, catalog := catalog, dirty := true } :=
  ⟨rfl, rfl, rfl, keeps.mono (by simp [ownedBeside])⟩

theorem Holds.undisturbed_write (holds : archive.Holds map) (key : ContentKey) {blob : Bytes}
    (short : blob.length < 2 ^ 63) (overwrite : Bool) :
    Undisturbed archive (archive.write key blob overwrite).2 := by
  rcases holds.write_cases key short overwrite with
    ⟨_, _, refused, keeps, _⟩ | ⟨_, _, written, keeps, _⟩
  · rw [refused]
    exact undisturbed_of_keeps keeps
  · rw [written]
    exact undisturbed_of_keeps_beside keeps _

theorem Holds.undisturbed_put (holds : archive.Holds map) {blob : Bytes}
    (short : blob.length < 2 ^ 63) : Undisturbed archive (archive.put blob).2 := by
  rcases archive.put_cases blob with same | written
  · rw [same]
    exact holds.undisturbed
  · rw [written]
    exact holds.undisturbed_write _ short false

theorem Holds.undisturbed_delete (holds : archive.Holds map) (key : ContentKey) :
    Undisturbed archive (archive.delete key).2 := by
  rcases holds.delete_cases key with ⟨_, refused⟩ | ⟨entry, _, found, _, deleted⟩
  · rw [refused]
    exact holds.undisturbed
  · rw [deleted]
    exact undisturbed_of_keeps_beside
      (Container.keeps_release holds.sound (holds.not_mem_ownedBeside found)) _

theorem Holds.undisturbed_replaceKey (holds : archive.Holds map) (old new : ContentKey) :
    Undisturbed archive (archive.replaceKey old new).2 := by
  rcases archive.replaceKey_cases old new with ⟨_, refused⟩ | ⟨_, _, _, replaced⟩
  · rw [refused]
    exact holds.undisturbed
  · rw [replaced]
    exact undisturbed_of_keeps_beside
      (Container.Keeps.refl holds.sound (archive.ownedBeside old)) _

/-- Header table and anchor are stored, or nothing is changed but for what an overflow leaves. -/
theorem Holds.writeTables_cases (holds : archive.Holds map) (dirty : archive.dirty = true)
    (anchored : archive.Anchored) (large : archive.catalog.length < 2 ^ 32 →
      archive.catalog.length ≤ archive.settings.headerTableRecords archive.catalog.length) :
    (∃ excess, archive.writeTables.1 = .error (.overflow excess) ∧
      Undisturbed archive archive.writeTables.2 ∧
        (2 ^ 32 ≤ archive.catalog.length ∨ archive.Crowded)) ∨
    archive.writeTables.1 = .ok () ∧ archive.writeTables.2.Anchored ∧
      archive.writeTables.2.settings = archive.settings ∧
      (archive.writeTables.2.headerTable = none → archive.catalog = []) ∧
      ∀ slot, archive.writeTables.2.headerTable = some slot →
        ∃ region, archive.writeTables.2.container.liveRegion slot = .ok region ∧
          region.size = archive.catalog.length * HashRecord.width := by
  unfold Archive.writeTables
  split
  · rename_i many
    exact Or.inl ⟨_, rfl, holds.undisturbed, Or.inl many⟩
  · rename_i few
    rcases holds.ensureHeaderTable_roomy dirty (large (by omega)) with
      ⟨excess, new, refused, keeps, crowded⟩ | ⟨table, ready, ensured, kept, spares, listed, roomy⟩
    · rw [refused]
      exact Or.inl ⟨excess, rfl, undisturbed_of_keeps keeps, Or.inr crowded⟩
    · have anchor := (anchored.roomy holds).keep (spares.spares _ (List.mem_singleton.mpr rfl))
      obtain ⟨after, filled, held, rows⟩ := kept.fillTables_of_roomy anchor roomy
      rw [ensured]
      simp only [filled]
      exact Or.inr ⟨trivial, ⟨_, held⟩, trivial, listed, rows⟩

/-- No flush leaves an anchor that names another header table than the archive has. -/
theorem Holds.anchored_flush (holds : archive.Holds map) (anchored : archive.Anchored)
    (actual : archive.settings.tableGrowth ≠ .nan) : archive.flush.2.Anchored := by
  rcases archive.flush_cases with ⟨_, dirty, failed, left⟩ | ⟨ready, readied, stored⟩
  · have large := fun few : archive.catalog.length < 2 ^ 32 =>
      ArchiveSettings.le_headerTableRecords holds.legal actual
        (few.le.trans (by norm_num) : archive.catalog.length ≤ 2 ^ 53)
    rw [left]
    rcases holds.writeTables_cases dirty anchored large with ⟨_, _, undisturbed, _⟩ | ⟨written, _⟩
    · exact anchored.keep holds undisturbed
    · cases failed.symm.trans written
  · obtain ⟨kept, clean⟩ := holds.readied readied
    rw [stored]
    exact ((kept.recorded clean).isAnchored).keep kept
      (undisturbed_of_keeps (Container.keeps_flush kept.sound _))

theorem Holds.settings_flush (holds : archive.Holds map) :
    archive.flush.2.settings = archive.settings := by
  have ensured : archive.ensureHeaderTable.2.settings = archive.settings := by
    rcases holds.ensureHeaderTable_cases with
      ⟨same, _⟩ | ⟨_, _, _, same⟩ | ⟨_, _, _, same⟩ <;> rw [same]
  have filled (ready : Archive) : ready.fillTables.2.settings = ready.settings := by
    rcases ready.fillTables_cases with ⟨_, _, _, _, same⟩ | ⟨_, same⟩ <;> rw [same]
  have written : archive.writeTables.2.settings = archive.settings := by
    unfold Archive.writeTables
    split
    · rfl
    · rcases outcome : archive.ensureHeaderTable with ⟨_ | _, ready⟩
      · rw [outcome] at ensured
        exact ensured
      · rw [outcome] at ensured
        exact (filled ready).trans ensured
  rcases archive.flush_cases with ⟨_, _, _, same⟩ | ⟨ready, ⟨_, rfl⟩ | ⟨_, _, rfl⟩, same⟩
  · rw [same]
    exact written
  · rw [same]
  · rw [same]
    exact written

/-- The anchor is right as long as the growth factor is a number. -/
def Steady (archive : Archive) : Prop :=
  archive.settings.tableGrowth ≠ .nan → archive.Anchored

theorem Steady.keep (steady : archive.Steady) (holds : archive.Holds map)
    (undisturbed : Undisturbed archive next) : next.Steady := by
  intro actual
  rw [undisturbed.settings] at actual
  exact (steady actual).keep holds undisturbed

theorem Steady.flush (steady : archive.Steady) (holds : archive.Holds map) :
    archive.flush.2.Steady := by
  intro actual
  rw [holds.settings_flush] at actual
  exact holds.anchored_flush (steady actual) actual

theorem Steady.reopen (holds : archive.Holds map) {settings : Settings}
    (reopened : archive.reopen settings = some next) : next.Steady := by
  obtain ⟨_, _, kept, saved, legal, rfl⟩ := holds.reopen_eq reopened
  exact fun _ => ((kept.reloaded saved legal).recorded rfl).isAnchored

theorem Steady.perform (steady : archive.Steady) (holds : archive.Holds map) {act : ArchiveAct}
    {result : Except Fault Unit} (performed : archive.perform act = some (result, next)) :
    next.Steady :=
  of_perform
    (fun key blob overwrite => steady.keep holds (holds.undisturbed_write key blob.2 overwrite))
    (fun blob => steady.keep holds (holds.undisturbed_put blob.2))
    (fun key => steady.keep holds (holds.undisturbed_delete key))
    (fun old new => steady.keep holds (holds.undisturbed_replaceKey old new))
    (steady.flush holds) (fun _ _ => Steady.reopen holds) performed

theorem anchored_createIn {container after : Container} (sound : container.Sound)
    {settings : ArchiveSettings} (created : createIn container settings = (.ok archive, after)) :
    archive.Anchored := by
  obtain ⟨slot, allocated, filled, region, entered, written, live, rfl, _⟩ := createIn_ok created
  have soundNew := sound.newEntry RootRecord.width
  rw [entered] at soundNew
  have soundFilled := soundNew.write slot (RootRecord.ofArchive 0 0).encode 0
  obtain ⟨_, before, alive, room⟩ := Container.newEntry_live sound entered
  have held := (Container.read_write soundNew alive (Nat.zero_le _)
    (show 0 + (RootRecord.ofArchive 0 0).encode.length ≤ before.capacity by simpa using room)
    (Container.read_newEntry sound entered)).2
  rw [written] at held soundFilled
  have same := ((Container.Spares.setRoot filled slot slot).read soundFilled
    (soundFilled.setRoot slot) live).2
  exact ⟨0, same.trans (held.trans (by simp))⟩

theorem Tended.steady (sound : base.Sound) (rootless : base.root = none)
    (tended : Tended base archive) : archive.Steady := by
  induction tended with
  | layered made =>
    obtain ⟨_, _, created⟩ := createIn_of_layered rootless made
    exact fun _ => anchored_createIn sound created
  | step tended act performed steady =>
    obtain ⟨⟨_, holds⟩, _⟩ := tended.tends sound rootless
    exact steady.perform holds performed
  | flushed tended steady =>
    obtain ⟨⟨_, holds⟩, _⟩ := tended.tends sound rootless
    exact steady.flush holds

/-- The flush of the container with which an archive is given up. -/
def lastFlush (archive : Archive) : Attempt Container Unit :=
  (if archive.dirty then archive.flush.2 else archive).container.flush

theorem leave_eq (archive : Archive) : archive.leave = archive.lastFlush.2.file := rfl

/-- A file opens as a container whose root slot holds an anchor, and that anchor names no header
table or one whose slot is live. -/
def NamesLive (file : File) : Prop :=
  ∀ settings : ContainerSettings, settings.check = .ok () →
    ∃ opened slot anchor, Container.openFile file settings = (.ok opened, file) ∧
      opened.root = some slot ∧ opened.read slot = .ok (RootRecord.encode anchor) ∧
        (anchor.headerTable = 0 ∨
          ∃ region, opened.liveRegion anchor.headerTable.toNat = .ok region)

theorem Anchored.namesLive (anchored : archive.Anchored) (holds : archive.Holds map)
    (stored : archive.container.dirty = false) : NamesLive archive.container.file := by
  intro settings legal
  obtain ⟨count, held⟩ := anchored
  have keeps := Container.keeps_reloaded holds.sound stored archive.owned settings
  have read := (holds.read keeps (List.mem_cons_self ..) (List.mem_cons_self ..)).2
  refine ⟨_, archive.rootSlot, _, holds.openContainer stored legal, holds.anchored,
    read.trans held, ?_⟩
  have word := holds.headerTable_word.1
  cases named : archive.headerTable with
  | none => exact Or.inl rfl
  | some slot =>
    have member : slot ∈ archive.owned := by simp [owned, named]
    rw [named] at word
    simp only [RootRecord.ofArchive, Option.getD_some] at word ⊢
    rw [word]
    exact Or.inr (holds.read keeps member member).1

/-- An archive that is given up leaves a file with a right anchor, unless its container cannot be
flushed because some number is too large. -/
theorem Tended.namesLive (sound : base.Sound) (rootless : base.root = none)
    (tended : Tended base archive) (actual : archive.settings.tableGrowth ≠ .nan) :
    (∃ excess, archive.lastFlush.1 = .error (.overflow excess)) ∨
      archive.lastFlush.1 = .ok () ∧ NamesLive archive.leave := by
  have last : Tended base (if archive.dirty then archive.flush.2 else archive) ∧
      (if archive.dirty then archive.flush.2 else archive).settings = archive.settings := by
    obtain ⟨⟨_, holds⟩, _⟩ := tended.tends sound rootless
    split
    · exact ⟨.flushed tended, holds.settings_flush⟩
    · exact ⟨tended, rfl⟩
  rw [leave_eq]
  unfold lastFlush
  generalize (if archive.dirty then archive.flush.2 else archive) = left at last ⊢
  obtain ⟨⟨_, holds⟩, _⟩ := last.1.tends sound rootless
  have anchored := last.1.steady sound rootless (by rw [last.2]; exact actual)
  have keeps := Container.keeps_flush holds.sound left.owned
  rcases Container.flush_outcome holds.sound with failed | stored
  · exact Or.inl failed
  · exact Or.inr ⟨stored, (anchored.keep holds (undisturbed_of_keeps keeps)).namesLive
      (holds.step keeps) (Container.flush_ok holds.sound (Prod.ext stored rfl)).1⟩

/-- The header table fits. Whatever is done to an archive whose growth factor is a number, its
settings ask for room for every entry. So header table and anchor are stored, unless an offset or
the number of slots is too large, and afterwards the header table, which is there if there are
entries, is as long as the entries take. Giving the archive up, after whatever flushes, leaves a
file whose anchor names no header table that was released, unless the container overflows in its
last flush. -/
theorem headerTable_of_tended (reached : Container.Reachable base) (rootless : base.root = none)
    (tended : Tended base archive) (actual : archive.settings.tableGrowth ≠ .nan) :
    (∀ entries < 2 ^ 32, entries ≤ archive.settings.headerTableRecords entries) ∧
      (archive.dirty = true → archive.catalog.length < 2 ^ 32 →
        archive.Crowded ∧ (∃ excess, archive.writeTables.1 = .error (.overflow excess)) ∨
        archive.writeTables.1 = .ok () ∧
          (archive.writeTables.2.headerTable = none → archive.catalog = []) ∧
          ∀ slot, archive.writeTables.2.headerTable = some slot →
            ∃ region, archive.writeTables.2.container.liveRegion slot = .ok region ∧
              region.size = 32 * archive.catalog.length) ∧
      ((∃ excess, archive.lastFlush.1 = .error (.overflow excess)) ∨
        archive.lastFlush.1 = .ok () ∧ NamesLive archive.leave) := by
  obtain ⟨⟨_, holds⟩, _⟩ := tended.tends reached.sound rootless
  have large (entries : Nat) (few : entries < 2 ^ 32) :
      entries ≤ archive.settings.headerTableRecords entries :=
    ArchiveSettings.le_headerTableRecords holds.legal actual (few.le.trans (by norm_num))
  refine ⟨large, fun dirty few => ?_, tended.namesLive reached.sound rootless actual⟩
  have anchored := tended.steady reached.sound rootless actual
  rcases holds.writeTables_cases dirty anchored (large _) with
    ⟨excess, failed, _, many | crowded⟩ | ⟨written, _, _, listed, rows⟩
  · omega
  · exact Or.inl ⟨crowded, excess, failed⟩
  · refine Or.inr ⟨written, listed, fun slot named => ?_⟩
    obtain ⟨region, live, size⟩ := rows slot named
    exact ⟨region, live, size.trans (Nat.mul_comm ..)⟩

/-- The smallest legal factor, and a header table that has to move for a second entry. -/
theorem headerTable_of_growth_one :
    ∃ archive, Tended (Container.create {}) archive ∧
      archive.settings.tableGrowth = binary64.ofNat 1 ∧ archive.headerTable = some 3 ∧
      archive.catalog.length = 2 ∧ 2 ≤ archive.settings.headerTableRecords 2 ∧
      archive.writeTables.2.headerTable = some 6 ∧
      (∃ region, archive.writeTables.2.container.liveRegion 6 = .ok region ∧ region.size = 64) ∧
      NamesLive archive.leave := by
  have ran : ((ofContainer (Container.create {})
      { tableGrowth := binary64.ofNat 1, tableMinimum := 1 }).1.toOption.map fun archive =>
      let stored := (archive.write (ContentKey.replicate 7) [1, 2, 3] false).2.flush.2
      let changed := (stored.write (ContentKey.replicate 8) [4] false).2
      ((changed.settings.tableGrowth, changed.headerTable, changed.catalog.length, changed.dirty),
        changed.writeTables.1, changed.writeTables.2.headerTable, changed.lastFlush.1)) =
      some ((binary64.ofNat 1, some 3, 2, true), .ok (), some 6, .ok ()) := by decide +kernel
  rcases layered : ofContainer (Container.create {})
    { tableGrowth := binary64.ofNat 1, tableMinimum := 1 } with ⟨_ | archive, file⟩
  · rw [layered] at ran
    cases ran
  · rw [layered] at ran
    have tended : Tended (Container.create {}) ((archive.write (ContentKey.replicate 7) [1, 2, 3]
        false).2.flush.2.write (ContentKey.replicate 8) [4] false).2 :=
      .step (.flushed (.step (.layered layered)
        (.write (ContentKey.replicate 7) ⟨[1, 2, 3], by decide⟩ false) rfl))
        (.write (ContentKey.replicate 8) ⟨[4], by decide⟩ false) rfl
    simp only [Except.toOption, Option.map_some, Option.some.injEq, Prod.mk.injEq] at ran
    generalize ((archive.write (ContentKey.replicate 7) [1, 2, 3] false).2.flush.2.write
      (ContentKey.replicate 8) [4] false).2 = changed at ran tended
    obtain ⟨⟨growth, table, count, dirty⟩, written, moved, last⟩ := ran
    have actual : changed.settings.tableGrowth ≠ .nan := by
      rw [growth]
      decide +kernel
    obtain ⟨large, stores, leaves⟩ := headerTable_of_tended
      (Container.reachable_create (by decide +kernel)) rfl tended actual
    rcases stores dirty (by omega) with ⟨_, _, failed⟩ | ⟨_, _, rows⟩
    · cases failed.symm.trans written
    · rcases leaves with ⟨_, overflown⟩ | ⟨_, right⟩
      · cases overflown.symm.trans last
      · obtain ⟨region, live, size⟩ := rows 6 moved
        exact ⟨changed, tended, growth, table, count, large 2 (by omega), moved,
          ⟨region, live, by omega⟩, right⟩

/-- A growth factor that is a NaN is legal, but leaves the second entry without a record. -/
theorem headerTable_of_nan_fails :
    ∃ archive, Tended (Container.create {}) archive ∧
      archive.settings = { tableGrowth := .nan, tableMinimum := 1 } ∧
      archive.settings.check = .ok () ∧ archive.catalog.length = 2 ∧
      archive.settings.headerTableRecords 2 = 1 ∧
      archive.writeTables.1 = .error (.file (.slotFull 4 32)) := by
  have ran : ((ofContainer (Container.create {})
      { tableGrowth := .nan, tableMinimum := 1 }).1.toOption.map fun archive =>
      let first := (archive.write (ContentKey.replicate 7) [1, 2, 3] false).2
      let second := (first.write (ContentKey.replicate 8) [4] false).2
      (second.settings, second.catalog.length, second.writeTables.1)) =
      some ({ tableGrowth := .nan, tableMinimum := 1 }, 2, .error (.file (.slotFull 4 32))) := by
    decide +kernel
  rcases layered : ofContainer (Container.create {})
    { tableGrowth := .nan, tableMinimum := 1 } with ⟨_ | archive, file⟩
  · rw [layered] at ran
    cases ran
  · rw [layered] at ran
    have tended : Tended (Container.create {}) ((archive.write (ContentKey.replicate 7) [1, 2, 3]
        false).2.write (ContentKey.replicate 8) [4] false).2 :=
      .step (.step (.layered layered)
        (.write (ContentKey.replicate 7) ⟨[1, 2, 3], by decide⟩ false) rfl)
        (.write (ContentKey.replicate 8) ⟨[4], by decide⟩ false) rfl
    simp only [Except.toOption, Option.map_some, Option.some.injEq, Prod.mk.injEq] at ran
    obtain ⟨settings, count, full⟩ := ran
    refine ⟨_, tended, settings, ?_, count, ?_, full⟩
    · rw [settings]
      decide +kernel
    · rw [settings]
      decide +kernel

end SlotStore.Archive
