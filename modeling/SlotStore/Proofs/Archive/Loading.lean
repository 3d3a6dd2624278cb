import SlotStore.Proofs.Archive.Flush

/-!
Opening archives. A new file gives an archive without entries; the file of an archive with nothing
unsaved gives an archive for the same map, under any legal settings.
-/

namespace SlotStore

theorem Settings.check_eq_ok_iff {settings : Settings} :
    settings.check = .ok () ↔
      settings.container.check = .ok () ∧ settings.archive.check = .ok () := by
  unfold Settings.check
  cases settings.container.check <;> simp

namespace Archive

variable {archive : Archive} {map : KeyMap}

/-- A new archive consists of a slot that is handed out, filled with an anchor without entries and
made the root. -/
theorem createIn_ok {container after : Container} {settings : ArchiveSettings} {made : Archive}
    (created : createIn container settings = (.ok made, after)) :
    ∃ slot allocated filled region, container.newEntry RootRecord.width = (.ok slot, allocated) ∧
      allocated.write slot (RootRecord.ofArchive 0 0).encode 0 = (.ok (), filled) ∧
        filled.liveRegion slot = .ok region ∧ made = ⟨(filled.setRoot slot).2, slot, none, [], true,
          settings⟩ ∧ (filled.setRoot slot).2.root = some slot := by
  unfold createIn at created
  split at created
  · cases created
  · rename_i slot allocated entered
    split at created
    · cases created
    · rename_i filled written
      split at created
      · cases created
      · rename_i anchored rooted
        obtain ⟨same, rfl⟩ := Prod.mk.inj created
        cases Except.ok.inj same
        rcases filled.setRoot_cases slot with ⟨_, refused⟩ | ⟨region, live, changed⟩
        · rw [rooted] at refused
          cases (Prod.mk.inj refused).1
        · have left := congrArg Prod.snd rooted
          refine ⟨slot, allocated, filled, region, entered, written, live, by rw [left], ?_⟩
          rw [changed]

theorem holds_createIn {container : Container} (sound : container.Sound)
    {settings : ArchiveSettings} (legal : settings.check = .ok ()) {made : Archive}
    {after : Container} (created : createIn container settings = (.ok made, after)) :
    made.Holds .empty := by
  obtain ⟨slot, allocated, filled, region, entered, written, live, rfl, root⟩ := createIn_ok created
  have soundNew := sound.newEntry RootRecord.width
  rw [entered] at soundNew
  have soundFilled := soundNew.write slot (RootRecord.ofArchive 0 0).encode 0
  rw [written] at soundFilled
  have still := (Container.Spares.setRoot filled slot slot region live).1
  exact {
    sound := soundFilled.setRoot slot
    anchored := root
    distinct := by simp [owned, Catalog.slots]
    live := by
      intro other member
      have only : other = slot := by simpa [owned, Catalog.slots] using member
      exact ⟨region, only ▸ still⟩
    sorted := List.Pairwise.nil
    contents := fun _ => .none
    recorded := nofun
    legal := legal }

/-- A container without a root gets a new archive, another one gives the archive in its root. -/
theorem ofContainer_cases {container : Container} {after : File} {settings : ArchiveSettings}
    {opened : Archive} (accepted : ofContainer container settings = (.ok opened, after)) :
    settings.check = .ok () ∧
      (container.root = none ∧ (∃ left, createIn container settings = (.ok opened, left)) ∨
        ∃ rootSlot, container.root = some rootSlot ∧
          load container rootSlot settings = .ok opened) := by
  unfold ofContainer at accepted
  split at accepted
  · cases accepted
  · rename_i legal
    refine ⟨legal, ?_⟩
    split at accepted
    · rename_i rootless
      split at accepted
      · cases accepted
      · rename_i left created
        cases Except.ok.inj (Prod.mk.inj accepted).1
        exact Or.inl ⟨rootless, left, created⟩
    · rename_i rootSlot anchored
      split at accepted
      · cases accepted
      · rename_i loaded
        cases Except.ok.inj (Prod.mk.inj accepted).1
        exact Or.inr ⟨rootSlot, anchored, loaded⟩

theorem openFile_cases {file after : File} {settings : Settings} {opened : Archive}
    (accepted : openFile file settings = (.ok opened, after)) :
    settings.archive.check = .ok () ∧ ∃ container between,
      Container.openFile file settings.container = (.ok container, between) ∧
        (container.root = none ∧ (∃ left, createIn container settings.archive = (.ok opened, left)) ∨
          ∃ rootSlot, container.root = some rootSlot ∧
            load container rootSlot settings.archive = .ok opened) := by
  unfold openFile at accepted
  split at accepted
  · cases accepted
  · rename_i container between found
    obtain ⟨legal, origin⟩ := ofContainer_cases accepted
    exact ⟨legal, container, between, found, origin⟩

theorem holds_openFile_empty {settings : Settings} {opened : Archive} {after : File}
    (accepted : openFile .empty settings = (.ok opened, after)) : opened.Holds .empty := by
  obtain ⟨legal, container, between, found, created⟩ := openFile_cases accepted
  have fresh : container = Container.create settings.container := by
    rw [Container.openFile_empty (Container.openFile_ok found).1] at found
    exact (Except.ok.inj (Prod.mk.inj found).1).symm
  subst fresh
  rcases created with ⟨_, left, created⟩ | ⟨rootSlot, anchored, _⟩
  · exact holds_createIn (Container.sound_create settings.container) legal created
  · cases anchored

theorem Holds.slot_lt (holds : archive.Holds map) {slot : Nat} (member : slot ∈ archive.owned) :
    0 < slot ∧ slot < 2 ^ 32 := by
  obtain ⟨region, live⟩ := holds.live slot member
  obtain ⟨nonzero, _, here⟩ := Container.liveRegion_eq_ok_iff.mp live
  have bound := (List.getElem?_eq_some_iff.mp here).1
  exact ⟨Nat.pos_of_ne_zero nonzero, Nat.lt_of_lt_of_le bound holds.sound.limited⟩

theorem Holds.recordable (holds : archive.Holds map) : archive.catalog.Recordable := by
  intro entry member
  have found := holds.sorted.lookup? member
  obtain ⟨blob, _, backs⟩ := holds.backs found
  have short := backs.short
  refine ⟨(holds.slot_lt (mem_owned_of_lookup? found)).2, ?_⟩
  rw [backs.size]
  omega

/-- The anchor's word for the header table says whether there is one, and which slot has it. -/
theorem Holds.headerTable_word (holds : archive.Holds map) :
    (UInt32.ofNat (archive.headerTable.getD 0)).toNat = archive.headerTable.getD 0 ∧
      (if archive.headerTable.getD 0 = 0 then none else some (archive.headerTable.getD 0)) =
        archive.headerTable := by
  cases named : archive.headerTable with
  | none => simp
  | some slot =>
    have member : slot ∈ archive.owned := by simp [owned, named]
    obtain ⟨positive, small⟩ := holds.slot_lt member
    exact ⟨toNat_word32 small, if_neg (Nat.ne_of_gt positive)⟩

/-- The slots of the bookkeeping: the anchor's and the header table's. -/
def tables (archive : Archive) : List Nat := archive.rootSlot :: archive.headerTable.toList

theorem tables_subset_owned (archive : Archive) : archive.tables ⊆ archive.owned :=
  List.cons_subset_cons _ (List.subset_append_left ..)

theorem Holds.loadCatalog (holds : archive.Holds map) (recorded : archive.Recorded)
    {new : Container} (keeps : Container.Keeps archive.tables archive.container new) :
    Archive.loadCatalog new (RootRecord.ofArchive archive.catalog.length
      (archive.headerTable.getD 0)) = .ok archive.catalog := by
  have count : (UInt32.ofNat archive.catalog.length).toNat = archive.catalog.length :=
    toNat_word32 recorded.few
  unfold Archive.loadCatalog
  simp only [RootRecord.ofArchive, count, holds.headerTable_word.1]
  split
  · rename_i none
    rw [List.eq_nil_of_length_eq_zero none]
  · rename_i some
    obtain ⟨slot, named, rows⟩ := recorded.table fun empty => some (by simp [empty])
    have member : slot ∈ archive.tables := by simp [tables, named]
    have read : new.read slot = .ok archive.catalog.encode :=
      (holds.read keeps member (archive.tables_subset_owned member)).2.trans rows
    simp only [named, Option.getD_some, read]
    simpa using holds.sorted.decode_encode holds.recordable []

/-- What is recorded is loaded, from any container that keeps the slots of the bookkeeping. -/
theorem Holds.load (holds : archive.Holds map) (recorded : archive.Recorded) {new : Container}
    (keeps : Container.Keeps archive.tables archive.container new) (settings : ArchiveSettings) :
    Archive.load new archive.rootSlot settings =
      .ok { archive with container := new, dirty := false, settings := settings } := by
  have anchor := (holds.read keeps (List.mem_cons_self ..) (List.mem_cons_self ..)).2.trans
    recorded.anchor
  have decoded := RootRecord.decode_encode (RootRecord.ofArchive archive.catalog.length
    (archive.headerTable.getD 0)) []
  rw [List.append_nil] at decoded
  unfold Archive.load
  simp only [anchor, decoded, RootRecord.expect_ofArchive, holds.loadCatalog recorded keeps]
  simp only [RootRecord.ofArchive, holds.headerTable_word.1, holds.headerTable_word.2]

/-- The archive once its file was opened again. -/
def reloaded (archive : Archive) (settings : Settings) : Archive :=
  { archive with
    container := archive.container.reloaded settings.container
    dirty := false
    settings := settings.archive }

theorem clean_of_saved (saved : archive.unsaved = false) :
    archive.dirty = false ∧ archive.container.dirty = false := by
  simpa [unsaved] using saved

theorem Holds.keeps_reloaded (holds : archive.Holds map) (saved : archive.unsaved = false)
    (settings : Settings) : Container.Keeps archive.owned archive.container
      (archive.container.reloaded settings.container) :=
  Container.keeps_reloaded holds.sound (clean_of_saved saved).2 _ _

theorem Holds.reloaded (holds : archive.Holds map) (saved : archive.unsaved = false)
    {settings : Settings} (legal : settings.check = .ok ()) :
    (archive.reloaded settings).Holds map := by
  have stepped := holds.step (holds.keeps_reloaded saved settings)
  have clean := (clean_of_saved saved).1
  exact {
    sound := stepped.sound
    anchored := stepped.anchored
    distinct := stepped.distinct
    live := stepped.live
    sorted := stepped.sorted
    contents := stepped.contents
    recorded := fun _ => ⟨(stepped.recorded clean).few, (stepped.recorded clean).anchor,
      (stepped.recorded clean).table⟩
    legal := (Settings.check_eq_ok_iff.mp legal).2 }

/-- The root is not the slot table's slot, in any container that keeps the slots of the
bookkeeping. -/
theorem Holds.user_root (holds : archive.Holds map) {new : Container}
    (keeps : Container.Keeps archive.tables archive.container new) (index : Nat)
    (reserved : new.tableIndex = some index) : new.root ≠ some index := by
  intro anchored
  obtain ⟨region, live⟩ := (holds.read keeps (List.mem_cons_self ..) (List.mem_cons_self ..)).1
  have same : index = archive.rootSlot :=
    Option.some.inj (anchored.symm.trans (keeps.root.trans holds.anchored))
  exact (Container.liveRegion_eq_ok_iff.mp live).2.1 (same ▸ reserved)

theorem Holds.openContainer (holds : archive.Holds map) (stored : archive.container.dirty = false)
    {settings : ContainerSettings} (legal : settings.check = .ok ()) :
    Container.openFile archive.container.file settings =
      (.ok (archive.container.reloaded settings), archive.container.file) :=
  Container.openFile_of_clean holds.sound stored
    (holds.user_root (Container.Keeps.refl holds.sound _)) legal

/-- The file of an archive with nothing unsaved can be opened under any legal settings. -/
theorem Holds.openFile (holds : archive.Holds map) (saved : archive.unsaved = false)
    {settings : Settings} (legal : settings.check = .ok ()) :
    Archive.openFile archive.container.file settings =
      (.ok (archive.reloaded settings), archive.container.file) := by
  obtain ⟨clean, stored⟩ := clean_of_saved saved
  obtain ⟨legalContainer, legalArchive⟩ := Settings.check_eq_ok_iff.mp legal
  have opened := holds.openContainer stored legalContainer
  have root : (archive.container.reloaded settings.container).root = some archive.rootSlot :=
    holds.anchored
  have loaded := holds.load (holds.recorded clean)
    ((holds.keeps_reloaded saved settings).mono archive.tables_subset_owned) settings.archive
  unfold Archive.openFile
  simp only [opened]
  unfold ofContainer
  simp only [legalArchive, root, loaded]
  rfl

/-- Closing succeeds where flushing does, and leaves the file that the flush has left. -/
theorem close_ok {file : File} (closed : archive.close = (.ok (), file)) (holds : archive.Holds map) :
    ∃ next, archive.flush = (.ok (), next) ∧ next.Holds map ∧ next.unsaved = false ∧
      file = next.container.file := by
  unfold close at closed
  rcases flushed : archive.flush with ⟨result, next⟩
  rw [flushed] at closed
  obtain ⟨rfl, rfl⟩ := Prod.mk.inj closed
  obtain ⟨kept, saved⟩ := holds.flush flushed
  obtain ⟨clean, stored⟩ := clean_of_saved saved
  refine ⟨next, rfl, kept, saved, ?_⟩
  simp only [leave, clean, Bool.false_eq_true, if_false, Container.leave,
    Container.flush_of_clean stored]

end Archive

end SlotStore
