import SlotStore.Proofs.Archive.Ownership
import SlotStore.Proofs.Container.Readiness

/-!
Operations that are refused. The file that an archive is opened from may hold any bytes, so an entry
may name a slot that is released or out of use, the slot of another entry, or no slot at all. Storing
a blob is then refused in many places, but never after something has changed.
-/

namespace SlotStore.Archive

variable {container new : Container} {existing : Option ArchiveEntry} {slot : Nat}

theorem chooseSlot_error_eq (room : container.slots.length < SlotTable.indexLimit) {length : Nat}
    {fault : Fault} (refused : chooseSlot container existing length = (.error fault, new)) :
    new = container := by
  unfold chooseSlot at refused
  split at refused
  · exact Container.newEntry_error_eq room refused
  · split at refused
    · exact (congrArg Prod.snd refused).symm
    · split at refused
      · cases refused
      · exact Container.newEntry_error_eq room refused

/-- The slot that is chosen is the entry's own, with room, or one that is handed out. In either case
the entry's own slot is in use. -/
theorem chooseSlot_ok {length : Nat}
    (chosen : chooseSlot container existing length = (.ok slot, new)) :
    (∃ entry, existing = some entry ∧ entry.slot = slot ∧ new = container ∧
      ∀ region, container.liveRegion slot = .ok region → length ≤ region.capacity) ∨
    container.newEntry length = (.ok slot, new) ∧
      ∀ entry, existing = some entry → container.Named entry.slot := by
  unfold chooseSlot at chosen
  split at chosen
  · exact Or.inr ⟨chosen, nofun⟩
  · rename_i entry
    split at chosen
    · cases chosen
    · rename_i capacity told
      split at chosen
      · rename_i room
        cases chosen
        refine Or.inl ⟨entry, rfl, rfl, rfl, fun region live => ?_⟩
        cases told.symm.trans (Container.entry_of_live live).2
        exact room
      · refine Or.inr ⟨chosen, fun other same => ?_⟩
        cases same
        exact Container.named_of_entryCapacity told

/-- Storing into the slot that was chosen is refused only where that is the entry's own slot and it
is not live. Then nothing has changed. -/
theorem storeIn_error_eq (ready : container.Ready) {stored : Bytes} {allocated : Container}
    (chosen : chooseSlot container existing stored.length = (.ok slot, allocated)) {fault : Fault}
    (refused : storeIn allocated existing slot stored = (.error fault, new)) :
    new = container := by
  rcases chooseSlot_ok chosen with ⟨entry, rfl, rfl, rfl, fits⟩ | ⟨made, named⟩
  · unfold storeIn at refused
    rcases filled : allocated.fill entry.slot stored with ⟨_ | _, full⟩
    · rw [filled] at refused
      simp only [Option.all_some, bne_self_eq_false, Bool.false_eq_true, if_false] at refused
      cases refused
      exact Container.fill_error_eq fits filled
    · rw [filled] at refused
      simp only [Option.all_some, bne_self_eq_false, Bool.false_eq_true, if_false] at refused
      cases refused
  -- a slot that is handed out can be filled, and the entry's own can be released after that
  · obtain ⟨region, live, fits⟩ := ready.liveRegion_newEntry made
    have filled := Container.fill_of_fits live fits
    unfold storeIn at refused
    cases existing with
    | none =>
      rw [filled] at refused
      cases refused
    | some entry =>
      have handed := (named entry rfl).newEntry ready.filled stored.length
      rw [made] at handed
      have released := (handed.fill live fits).release
      rw [filled] at refused released
      simp only at refused
      split at refused
      · cases released.symm.trans (congrArg Prod.fst refused)
      · cases refused

variable {base : Container} {archive next : Archive}

theorem write_error_eq (ready : archive.container.Ready)
    (room : archive.container.slots.length < SlotTable.indexLimit) {key : ContentKey} {blob : Bytes}
    {overwrite : Bool} {fault : Fault}
    (refused : archive.write key blob overwrite = (.error fault, next)) : next = archive := by
  unfold Archive.write at refused
  simp only at refused
  split at refused
  · exact (congrArg Prod.snd refused).symm
  · split at refused
    · rename_i chosen
      cases refused
      rw [chooseSlot_error_eq room chosen]
    · rename_i chosen
      split at refused
      · rename_i stored
        cases refused
        rw [storeIn_error_eq ready chosen stored]
      · cases refused

theorem put_error_eq (ready : archive.container.Ready)
    (room : archive.container.slots.length < SlotTable.indexLimit) {blob : Bytes} {fault : Fault}
    (refused : archive.put blob = (.error fault, next)) : next = archive := by
  unfold Archive.put at refused
  simp only at refused
  split at refused
  · cases refused
  · split at refused
    · rename_i failed
      cases refused
      exact write_error_eq ready room failed
    · cases refused

theorem ready_chooseSlot (ready : container.Ready) (existing : Option ArchiveEntry) (length : Nat) :
    (chooseSlot container existing length).2.Ready := by
  unfold chooseSlot
  split
  · exact ready.newEntry length
  · split
    · exact ready
    · split
      · exact ready
      · exact ready.newEntry length

theorem ready_storeIn (ready : container.Ready) (existing : Option ArchiveEntry) (slot : Nat)
    (stored : Bytes) : (storeIn container existing slot stored).2.Ready := by
  have filling := ready.fill slot stored
  unfold storeIn
  rcases filled : container.fill slot stored with ⟨_ | _, full⟩
  all_goals rw [filled] at filling
  · simp only
    split
    · exact filling.release slot
    · exact filling
  · cases existing with
    | none => exact filling
    | some entry =>
      simp only
      split
      · exact filling.release entry.slot
      · exact filling

theorem ready_write (ready : archive.container.Ready) (key : ContentKey) (blob : Bytes)
    (overwrite : Bool) : (archive.write key blob overwrite).2.container.Ready := by
  unfold Archive.write
  simp only
  split
  · exact ready
  · have chosen := ready_chooseSlot ready (archive.catalog.lookup? key)
      (packBlob archive.settings.compression blob).1.length
    split
    · rename_i refused
      rw [refused] at chosen
      exact chosen
    · rename_i slot allocated made
      rw [made] at chosen
      have stored := ready_storeIn chosen (archive.catalog.lookup? key) slot
        (packBlob archive.settings.compression blob).1
      split
      · rename_i refused
        rw [refused] at stored
        exact stored
      · rename_i done
        rw [done] at stored
        exact stored

theorem ready_put (ready : archive.container.Ready) (blob : Bytes) :
    (archive.put blob).2.container.Ready := by
  rcases archive.put_cases blob with same | written
  · rw [same]
    exact ready
  · rw [written]
    exact ready_write ready _ blob false

theorem ready_delete (ready : archive.container.Ready) (key : ContentKey) :
    (archive.delete key).2.container.Ready := by
  unfold Archive.delete
  split
  · exact ready
  · rename_i entry _
    have released := ready.release entry.slot
    split
    · rename_i refused
      rw [refused] at released
      exact released
    · rename_i done
      rw [done] at released
      exact released

theorem ready_replaceKey (ready : archive.container.Ready) (old new : ContentKey) :
    (archive.replaceKey old new).2.container.Ready := by
  rcases archive.replaceKey_cases old new with ⟨_, refused⟩ | ⟨_, _, _, replaced⟩
  · rw [refused]
    exact ready
  · rw [replaced]
    exact ready

theorem ready_ensureHeaderTable (ready : archive.container.Ready) :
    archive.ensureHeaderTable.2.container.Ready := by
  have handed := ready.newEntry
    (archive.settings.headerTableRecords archive.catalog.length * HashRecord.width)
  unfold Archive.ensureHeaderTable
  simp only
  split
  · exact ready
  · exact ready
  · split
    · rename_i refused
      rw [refused] at handed
      exact handed
    · rename_i made
      rw [made] at handed
      split
      · exact handed
      · rename_i old _
        have released := handed.release old
        split
        · rename_i refused
          rw [refused] at released
          exact released
        · rename_i done
          rw [done] at released
          exact released

theorem ready_fillTables (ready : archive.container.Ready) :
    archive.fillTables.2.container.Ready := by
  have between : archive.tableFilled.Ready := by
    rcases Option.eq_none_or_eq_some archive.headerTable with none | ⟨slot, named⟩
    · rw [tableFilled_of_none none]
      exact ready
    · rw [tableFilled_of_some named]
      exact ready.fill slot _
  rcases archive.fillTables_cases with ⟨_, _, _, _, failed⟩ | ⟨_, filled⟩
  · rw [failed]
    exact between
  · rw [filled]
    exact between.fill archive.rootSlot _

theorem ready_writeTables (ready : archive.container.Ready) :
    archive.writeTables.2.container.Ready := by
  have ensured := ready_ensureHeaderTable ready
  unfold Archive.writeTables
  split
  · exact ready
  · split
    · rename_i refused
      rw [refused] at ensured
      exact ensured
    · rename_i done
      rw [done] at ensured
      exact ready_fillTables ensured

theorem ready_flush (ready : archive.container.Ready) : archive.flush.2.container.Ready := by
  rcases archive.flush_cases with ⟨_, _, _, failed⟩ | ⟨stored, readied, flushed⟩
  · rw [failed]
    exact ready_writeTables ready
  · have before : stored.container.Ready := by
      rcases readied with ⟨_, rfl⟩ | ⟨_, _, rfl⟩
      · exact ready
      · exact ready_writeTables ready
    rw [flushed]
    exact before.flush

theorem container_of_load {rootSlot : Nat} {settings : ArchiveSettings}
    (loaded : load base rootSlot settings = .ok archive) : archive.container = base := by
  unfold load at loaded
  repeat (split at loaded; cases loaded)
  cases loaded
  rfl

/-- An archive is laid over the container as it is, or over what is left of it once a slot for the
anchor is filled. -/
theorem ready_ofContainer (ready : base.Ready) {settings : ArchiveSettings} {file : File}
    (made : ofContainer base settings = (.ok archive, file)) : archive.container.Ready := by
  obtain ⟨_, ⟨_, left, created⟩ | ⟨rootSlot, _, loaded⟩⟩ := ofContainer_cases made
  · obtain ⟨slot, allocated, filled, _, entered, written, _, rfl, _⟩ := createIn_ok created
    have handed := ready.newEntry RootRecord.width
    rw [entered] at handed
    have stored := handed.write slot (RootRecord.ofArchive 0 0).encode 0
    rw [written] at stored
    exact stored.setRoot slot
  · rw [container_of_load loaded]
    exact ready

theorem ready_reopen {settings : Settings} (reopened : archive.reopen settings = some next) :
    next.container.Ready := by
  unfold Archive.reopen at reopened
  split at reopened
  · cases reopened
  · rename_i file _
    rcases opened : openFile file settings with ⟨_ | back, after⟩
    · rw [opened] at reopened
      cases reopened
    · rw [opened] at reopened
      cases reopened
      unfold openFile at opened
      split at opened
      · cases opened
      · rename_i found
        exact ready_ofContainer (Container.ready_of_opened found) opened

theorem Tended.ready (ready : base.Ready) (tended : Tended base archive) :
    archive.container.Ready := by
  induction tended with
  | layered made => exact ready_ofContainer ready made
  | step _ _ performed kept =>
    exact of_perform (fun key blob overwrite => ready_write kept key blob overwrite)
      (fun blob => ready_put kept blob) (ready_delete kept) (ready_replaceKey kept)
      (ready_flush kept) (fun _ _ => ready_reopen) performed
  | flushed _ kept => exact ready_flush kept

/-- A call on one key that is refused, and the archive that it leaves behind. Reading leaves the
archive that it reads. -/
inductive Refuses (archive : Archive) (fault : Fault) : Archive → Prop where
  | write {next : Archive} (key : ContentKey) (blob : Bytes) (overwrite : Bool)
      (refused : archive.write key blob overwrite = (.error fault, next)) : Refuses archive fault next
  | put {next : Archive} (blob : Bytes) (refused : archive.put blob = (.error fault, next)) :
      Refuses archive fault next
  | delete {next : Archive} (key : ContentKey)
      (refused : archive.delete key = (.error fault, next)) : Refuses archive fault next
  | replaceKey {next : Archive} (old new : ContentKey)
      (refused : archive.replaceKey old new = (.error fault, next)) : Refuses archive fault next
  | get (key : ContentKey) (refused : archive.get key = .error fault) : Refuses archive fault archive

theorem Refuses.eq {fault : Fault} (refuses : Refuses archive fault next)
    (ready : archive.container.Ready)
    (room : archive.container.slots.length < SlotTable.indexLimit) : next = archive := by
  cases refuses with
  | write key blob overwrite refused => exact write_error_eq ready room refused
  | put blob refused => exact put_error_eq ready room refused
  | delete key refused => exact delete_error_eq refused
  | replaceKey old new refused => exact replaceKey_error_eq refused
  | get key refused => rfl

/-- Operations are atomic on errors. A file with any bytes that can be opened as a container is
opened, under any settings, an archive is laid over it and operated on in any way. Its entries may
name any slots. While there is a slot index left, a call that is refused leaves every key with the
entry that it had, every blob or error that reading a key answers, and indeed the whole archive. -/
theorem atomicity_of_tended {file after : File} {settings : ContainerSettings}
    (opened : Container.openFile file settings = (.ok base, after)) (tended : Tended base archive)
    (room : archive.container.slots.length < SlotTable.indexLimit) {fault : Fault}
    (refuses : Refuses archive fault next) :
    (∀ key, next.catalog.lookup? key = archive.catalog.lookup? key ∧
      next.get key = archive.get key) ∧ next = archive := by
  have same := refuses.eq (tended.ready (Container.ready_of_opened opened)) room
  subst same
  exact ⟨fun _ => ⟨rfl, rfl⟩, rfl⟩

/-- Anchor and header table are read again as long as their slots are kept, also after others have
given up the slots of the entries. -/
theorem Holds.ofContainer {map : KeyMap} (holds : archive.Holds map)
    (saved : archive.unsaved = false) {beside : Container}
    (keeps : Container.Keeps archive.tables archive.container beside)
    {settings : ArchiveSettings} (legal : settings.check = .ok ()) :
    Archive.ofContainer beside settings = (.ok { archive with
      container := beside, dirty := false, settings := settings }, beside.file) := by
  have loaded := holds.load (holds.recorded (clean_of_saved saved).1) keeps settings
  have root : beside.root = some archive.rootSlot := keeps.root.trans holds.anchored
  unfold Archive.ofContainer
  simp only [legal, root, loaded]

/-- An entry's slot has been released by another user of the container. A blob that may replace the
entry's is sent to that slot, which has room, and is refused there, as the slot is not live. -/
theorem atomicity_of_released_slot :
    ∃ file base archive next, openFile file {} = (.ok archive, file) ∧
      Container.openFile file {} = (.ok base, file) ∧ Tended base archive ∧
      archive.container.slots.length < SlotTable.indexLimit ∧
      archive.write (ContentKey.replicate 7) [9] true =
        (.error (.invalidSlot 2 .released), next) ∧
      (∀ key, next.catalog.lookup? key = archive.catalog.lookup? key ∧
        next.get key = archive.get key) ∧ next = archive := by
  have ran : ((openFile .empty {}).1.toOption.map fun created =>
      let stored := (created.write (ContentKey.replicate 7) [1, 2, 3] false).2.flush.2
      let freed := (stored.container.release 2).2.flush.2
      let archive : Archive :=
        { stored with container := freed.reloaded {}, dirty := false, settings := {} }
      (stored.unsaved, stored.tables, freed.dirty,
        (archive.write (ContentKey.replicate 7) [9] true).1)) =
      some (false, [1, 3], false, .error (.invalidSlot 2 .released)) := by
    decide +kernel
  rcases opened : openFile .empty {} with ⟨_ | created, _⟩
  · rw [opened] at ran
    cases ran
  · rw [opened] at ran
    have short : ([1, 2, 3] : Bytes).length < 2 ^ 63 := by decide
    have holds := ((holds_openFile_empty opened).write (ContentKey.replicate 7) short false).flush_any
    simp only [Except.toOption, Option.map_some, Option.some.injEq, Prod.mk.injEq] at ran
    generalize (created.write (ContentKey.replicate 7) [1, 2, 3] false).2.flush.2 = stored
      at ran holds
    obtain ⟨saved, tables, clean, failed⟩ := ran
    have apart : 2 ∉ stored.tables := by simp [tables]
    have releasing := Container.keeps_release holds.sound apart
    have freeing := releasing.trans (Container.keeps_flush releasing.sound _)
    generalize (stored.container.release 2).2.flush.2 = freed at freeing clean failed
    have keeps := freeing.trans (Container.keeps_reloaded freeing.sound clean _ {})
    have legal : ArchiveSettings.check {} = .ok () := by decide +kernel
    have legalContainer : ContainerSettings.check {} = .ok () := by decide +kernel
    have laid := holds.ofContainer saved keeps legal
    have accepted := Container.openFile_of_clean freeing.sound clean (holds.user_root freeing)
      legalContainer
    have entered : openFile freed.file {} = Archive.ofContainer (freed.reloaded {}) {} := by
      unfold openFile
      rw [accepted]
    have tended := Tended.layered laid
    have room := (keeps.sound.saved rfl).limited
    rcases refused : Archive.write _ _ _ _ with ⟨result, next⟩
    rw [refused] at failed
    cases failed
    exact ⟨_, _, _, next, entered.trans laid, accepted, tended, room, refused,
      atomicity_of_tended accepted tended room (.write _ _ _ refused)⟩

end SlotStore.Archive
