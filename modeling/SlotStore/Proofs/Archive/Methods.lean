import Mathlib.Logic.Function.Basic
import SlotStore.Proofs.Archive.Ownership

/-!
Methods of stored blobs. No flag says how a blob was stored. The length of its stored form does: it
differs from the length of the blob just where the method that was chosen compresses, and so it is
throughout the life of an archive, whatever its settings become.
-/

namespace SlotStore

/-- The methods that the blobs under the keys were last stored by. -/
abbrev MethodMap := ContentKey → Option CompressionMethod

/-- What an operation that succeeds makes of the methods, under the settings that the archive has
then. -/
def ArchiveAct.chosen (settings : CompressionSettings) (methods : MethodMap) :
    ArchiveAct → MethodMap
  | .write key blob _ => Function.update methods key (some (packBlob settings blob).2)
  | .put blob =>
    if (methods (ContentKey.digest blob)).isSome then methods
    else Function.update methods (ContentKey.digest blob) (some (packBlob settings blob).2)
  | .delete key => Function.update methods key none
  | .replaceKey old new => Function.update (Function.update methods old none) new (methods old)
  | .flush | .reopen _ => methods

/-- A method gave what an entry's slot holds, as far as the length tells. -/
def Bears (container : Container) (entry : ArchiveEntry) (method : CompressionMethod) : Prop :=
  ∃ stored, container.read entry.slot = .ok stored ∧
    (stored.length ≠ entry.uncompressedSize ↔ method = .lz4)

theorem Bears.keep {container new : Container} {entry : ArchiveEntry} {method : CompressionMethod}
    (bears : Bears container entry method)
    (same : new.read entry.slot = container.read entry.slot) : Bears new entry method := by
  obtain ⟨stored, read, told⟩ := bears
  exact ⟨stored, same.trans read, told⟩

namespace Archive

variable {base : Container} {archive next : Archive} {map : KeyMap} {methods : MethodMap}

/-- What a write that succeeds puts under its key: the slot of the entry holds the stored form,
whatever the archive held before. -/
theorem write_ok {key : ContentKey} {blob : Bytes} {overwrite : Bool}
    (written : archive.write key blob overwrite = (.ok (), next)) :
    ∃ slot, next.catalog.lookup? key = some ⟨key, slot, blob.length⟩ ∧
      next.container.read slot = .ok (packBlob archive.settings.compression blob).1 := by
  unfold Archive.write at written
  simp only at written
  split at written
  · cases written
  · rcases chosen : chooseSlot archive.container (archive.catalog.lookup? key)
      (packBlob archive.settings.compression blob).1.length with ⟨_ | slot, allocated⟩
    · rw [chosen] at written
      cases written
    · rw [chosen] at written
      simp only at written
      rcases done : storeIn allocated (archive.catalog.lookup? key) slot
        (packBlob archive.settings.compression blob).1 with ⟨_ | _, after⟩
      · rw [done] at written
        cases written
      · rw [done] at written
        cases written
        refine ⟨slot, by simp, ?_⟩
        obtain ⟨full, filled, left⟩ := storeIn_ok done
        obtain ⟨⟨region, live⟩, read⟩ := Container.read_of_fill_ok filled
        rcases left with ⟨_, rfl⟩ | ⟨entry, _, different, rfl⟩
        · exact read
        · exact Container.read_release read different

theorem get_of_bears {key : ContentKey} {entry : ArchiveEntry} {method : CompressionMethod}
    (found : archive.catalog.lookup? key = some entry)
    (bears : Bears archive.container entry method) :
    ∃ stored, archive.container.read entry.slot = .ok stored ∧
      archive.container.entrySize entry.slot = .ok stored.length ∧
      (stored.length ≠ entry.uncompressedSize ↔ method = .lz4) ∧
      archive.get key =
        (method.decompress stored entry.uncompressedSize).mapError .compression := by
  obtain ⟨stored, read, told⟩ := bears
  obtain ⟨region, live, size⟩ := Container.liveRegion_of_read read
  refine ⟨stored, read, size ▸ (Container.entry_of_live live).1, told, ?_⟩
  unfold Archive.get
  simp only [found, read]
  cases method with
  | plain =>
    rw [if_pos (Classical.not_not.mp fun differs => nomatch told.mp differs)]
    rfl
  | lz4 => rw [if_neg (told.mpr rfl)]

/-- A write that succeeds leaves what its method gave, which is read back as the blob. -/
theorem bears_of_write {key : ContentKey} {blob : Bytes} {overwrite : Bool}
    (legal : archive.settings.check = .ok ())
    (written : archive.write key blob overwrite = (.ok (), next)) :
    ∃ entry, next.catalog.lookup? key = some entry ∧ entry.uncompressedSize = blob.length ∧
      Bears next.container entry (packBlob archive.settings.compression blob).2 ∧
        next.get key = .ok blob := by
  have range := ArchiveSettings.check_compression legal
  obtain ⟨slot, found, read⟩ := write_ok written
  have bears : Bears next.container ⟨key, slot, blob.length⟩
      (packBlob archive.settings.compression blob).2 :=
    ⟨_, read, length_packBlob_ne_iff range blob⟩
  obtain ⟨stored, held, _, _, gives⟩ := get_of_bears found bears
  cases Except.ok.inj (read.symm.trans held)
  refine ⟨_, found, rfl, bears, gives.trans ?_⟩
  rw [decompress_packBlob range blob]
  rfl

/-- The second archive has the entries of the first, and their slots as the first has them. -/
structure Stays (archive next : Archive) : Prop where
  catalog : next.catalog = archive.catalog
  keeps : Container.Keeps archive.catalog.slots archive.container next.container

theorem Stays.refl (holds : archive.Holds map) : Stays archive archive :=
  ⟨rfl, Container.Keeps.refl holds.sound _⟩

theorem Stays.trans {second third : Archive} (left : Stays archive second)
    (right : Stays second third) : Stays archive third :=
  ⟨right.catalog.trans left.catalog, left.keeps.trans (left.catalog ▸ right.keeps)⟩

theorem slots_subset_owned (archive : Archive) : archive.catalog.slots ⊆ archive.owned :=
  fun _ member => List.mem_cons_of_mem _ (List.mem_append_right _ member)

theorem Stays.step {new : Container} (keeps : Container.Keeps archive.owned archive.container new) :
    Stays archive { archive with container := new } :=
  ⟨rfl, keeps.mono archive.slots_subset_owned⟩

theorem Stays.fill (holds : archive.Holds map) {slot : Nat} (unnamed : slot ∉ archive.catalog.slots)
    (data : Bytes) :
    Stays archive { archive with container := (archive.container.fill slot data).2 } :=
  ⟨rfl, Container.keeps_fill holds.sound unnamed data⟩

theorem Holds.stays_ensureHeaderTable (holds : archive.Holds map) :
    Stays archive archive.ensureHeaderTable.2 := by
  rcases holds.ensureHeaderTable_cases with
    ⟨ready, _⟩ | ⟨fault, new, refused, failed⟩ | ⟨slot, new, made, moved⟩
  · rw [ready]
    exact .refl holds
  · have keeps := Container.keeps_newEntry holds.sound archive.owned
      (archive.settings.headerTableRecords archive.catalog.length * HashRecord.width)
    rw [refused] at keeps
    rw [failed]
    exact .step keeps
  · rw [moved]
    exact ⟨rfl, (holds.leaveTable made).1.mono (List.subset_cons_self ..)⟩

theorem Holds.stays_fillTables (holds : archive.Holds map) (dirty : archive.dirty = true) :
    Stays archive archive.fillTables.2 := by
  have table : Stays archive { archive with container := archive.tableFilled } := by
    rcases Option.eq_none_or_eq_some archive.headerTable with none | ⟨slot, named⟩
    · rw [tableFilled_of_none none]
      exact .refl holds
    · rw [tableFilled_of_some named]
      exact .fill holds (holds.headerTable_not_mem named) _
  rcases archive.fillTables_cases with ⟨_, _, _, _, failed⟩ | ⟨_, filled⟩
  · rw [failed]
    exact table
  · have between := holds.tableFilled dirty
    rw [filled]
    exact table.trans (.fill between between.rootSlot_not_mem.2 _)

theorem Holds.stays_writeTables (holds : archive.Holds map) (dirty : archive.dirty = true) :
    Stays archive archive.writeTables.2 := by
  unfold Archive.writeTables
  split
  · exact .refl holds
  · obtain ⟨ready, still, _⟩ := holds.ensureHeaderTable dirty
    have roomy := holds.stays_ensureHeaderTable
    rcases ensured : archive.ensureHeaderTable with ⟨_ | _, next⟩
    · rw [ensured] at roomy
      exact roomy
    · rw [ensured] at ready still roomy
      exact roomy.trans (ready.stays_fillTables still)

theorem Holds.stays_flush (holds : archive.Holds map) : Stays archive archive.flush.2 := by
  rcases archive.flush_cases with ⟨_, dirty, _, failed⟩ | ⟨ready, readied, stored⟩
  · rw [failed]
    exact holds.stays_writeTables dirty
  · have kept := (holds.readied readied).1
    have stays : Stays archive ready := by
      rcases readied with ⟨_, rfl⟩ | ⟨dirty, _, rfl⟩
      · exact .refl holds
      · exact ⟨(holds.stays_writeTables dirty).catalog, (holds.stays_writeTables dirty).keeps⟩
    rw [stored]
    exact stays.trans (.step (Container.keeps_flush kept.sound _))

theorem Holds.stays_reopen (holds : archive.Holds map) {settings : Settings}
    (reopened : archive.reopen settings = some next) : Stays archive next := by
  obtain ⟨stored, flushed, kept, saved, _, rfl⟩ := holds.reopen_eq reopened
  have stays := holds.stays_flush
  rw [flushed] at stays
  exact stays.trans ⟨rfl, (kept.keeps_reloaded saved settings).mono stored.slots_subset_owned⟩

/-- Every entry has a method that gave what its slot holds. -/
def Packs (archive : Archive) (methods : MethodMap) : Prop :=
  ∀ key, Option.Rel (Bears archive.container) (archive.catalog.lookup? key) (methods key)

theorem Packs.bears (packs : Packs archive methods) {key : ContentKey} {entry : ArchiveEntry}
    (found : archive.catalog.lookup? key = some entry) :
    ∃ method, methods key = some method ∧ Bears archive.container entry method :=
  exists_of_related (found ▸ packs key)

theorem Packs.kept (packs : Packs archive methods) (holds : archive.Holds map) {owned : List Nat}
    {new : Container} (keeps : Container.Keeps owned archive.container new) {key : ContentKey}
    (listed : ∀ entry, archive.catalog.lookup? key = some entry → entry.slot ∈ owned) :
    Option.Rel (Bears new) (archive.catalog.lookup? key) (methods key) :=
  related_of_related (packs key) fun entry _ found bears =>
    bears.keep (holds.read keeps (listed entry found) (mem_owned_of_lookup? found)).2

theorem Packs.stays (packs : Packs archive methods) (holds : archive.Holds map)
    (stays : Stays archive next) : Packs next methods := by
  intro key
  rw [stays.catalog]
  exact packs.kept holds stays.keeps fun entry found => slot_mem_of_lookup? found

/-- Once a blob is written its key has the method that was chosen for it; the others keep theirs. -/
theorem Packs.written (packs : Packs archive methods) (holds : archive.Holds map) {key : ContentKey}
    {blob : Bytes} (short : blob.length < 2 ^ 63) {overwrite : Bool}
    (written : archive.write key blob overwrite = (.ok (), next)) :
    Packs next
      (Function.update methods key (some (packBlob archive.settings.compression blob).2)) := by
  obtain ⟨own, foundOwn, _, bears, _⟩ := bears_of_write holds.legal written
  rcases holds.write_cases key short overwrite with
    ⟨fault, new, refused, _⟩ | ⟨slot, new, done, keeps, _⟩
  · cases written.symm.trans refused
  · obtain ⟨_, rfl⟩ := Prod.mk.inj (written.symm.trans done)
    intro other
    by_cases same : other = key
    · rw [same, foundOwn, Function.update_self]
      exact .some bears
    · rw [Catalog.lookup?_put, if_neg same, Function.update_of_ne same]
      exact packs.kept holds keeps fun entry found => mem_ownedBeside same found

theorem Packs.unwritten (packs : Packs archive methods) (holds : archive.Holds map)
    {key : ContentKey} {blob : Bytes} (short : blob.length < 2 ^ 63) {overwrite : Bool}
    {fault : Fault} (refused : archive.write key blob overwrite = (.error fault, next)) :
    Packs next methods := by
  rcases holds.write_cases key short overwrite with
    ⟨_, new, failed, keeps, _⟩ | ⟨slot, new, done, _⟩
  · obtain ⟨_, rfl⟩ := Prod.mk.inj (refused.symm.trans failed)
    exact packs.stays holds (.step keeps)
  · cases refused.symm.trans done

theorem Packs.deleted (packs : Packs archive methods) (holds : archive.Holds map) {key : ContentKey}
    (deleted : archive.delete key = (.ok (), next)) :
    Packs next (Function.update methods key none) := by
  rcases holds.delete_cases key with ⟨_, refused⟩ | ⟨entry, region, found, _, done⟩
  · cases deleted.symm.trans refused
  · obtain ⟨_, rfl⟩ := Prod.mk.inj (deleted.symm.trans done)
    have keeps := Container.keeps_release holds.sound (holds.not_mem_ownedBeside found)
    intro other
    rw [Catalog.lookup?_without]
    by_cases same : other = key
    · rw [if_pos same, same, Function.update_self]
      exact .none
    · rw [if_neg same, Function.update_of_ne same]
      exact packs.kept holds keeps fun entry found => mem_ownedBeside same found

theorem Packs.replaced (packs : Packs archive methods) {old new : ContentKey}
    (replaced : archive.replaceKey old new = (.ok (), next)) :
    Packs next (Function.update (Function.update methods old none) new (methods old)) := by
  rcases archive.replaceKey_cases old new with ⟨_, refused⟩ | ⟨entry, found, _, done⟩
  · cases replaced.symm.trans refused
  · obtain ⟨_, rfl⟩ := Prod.mk.inj (replaced.symm.trans done)
    intro other
    rw [Catalog.lookup?_put, Catalog.lookup?_without]
    by_cases renamed : other = new
    · obtain ⟨method, known, bears⟩ := packs.bears found
      rw [if_pos renamed, renamed, Function.update_self, known]
      exact .some bears
    · rw [if_neg renamed, Function.update_of_ne renamed]
      by_cases gone : other = old
      · rw [if_pos gone, gone, Function.update_self]
        exact .none
      · rw [if_neg gone, Function.update_of_ne gone]
        exact packs other

theorem Packs.has (packs : Packs archive methods) (key : ContentKey) :
    archive.catalog.has key = (methods key).isSome :=
  isSome_of_related (packs key)

theorem perform_put (archive : Archive) (blob : Blob) :
    archive.perform (.put blob) = some (if archive.catalog.has (ContentKey.digest blob)
      then (.ok (), archive) else archive.write (ContentKey.digest blob) blob false) := by
  unfold Archive.perform Archive.put
  simp only
  split
  · rfl
  · rcases archive.write (ContentKey.digest blob) blob false with ⟨_ | _, after⟩ <;> rfl

/-- An operation that succeeds changes the methods as it says. -/
theorem Packs.done (packs : Packs archive methods) (holds : archive.Holds map) {act : ArchiveAct}
    (performed : archive.perform act = some (.ok (), next)) :
    Packs next (act.chosen archive.settings.compression methods) := by
  cases act with
  | write key blob overwrite => exact packs.written holds blob.2 (Option.some.inj performed)
  | put blob =>
    rw [perform_put, packs.has] at performed
    have put := Option.some.inj performed
    simp only [ArchiveAct.chosen]
    split at put
    · rename_i present
      cases put
      rw [if_pos present]
      exact packs
    · rename_i absent
      rw [if_neg absent]
      exact packs.written holds blob.2 put
  | delete key => exact packs.deleted holds (Option.some.inj performed)
  | replaceKey old new => exact packs.replaced (Option.some.inj performed)
  | flush =>
    have stays := holds.stays_flush
    rw [(flush_of_perform performed).2] at stays
    exact packs.stays holds stays
  | reopen settings =>
    exact packs.stays holds (holds.stays_reopen (reopen_of_perform performed).2)

/-- One that is refused changes none. -/
theorem Packs.refused (packs : Packs archive methods) (holds : archive.Holds map) {act : ArchiveAct}
    {fault : Fault} (performed : archive.perform act = some (.error fault, next)) :
    Packs next methods := by
  cases act with
  | write key blob overwrite => exact packs.unwritten holds blob.2 (Option.some.inj performed)
  | put blob =>
    rw [perform_put] at performed
    have put := Option.some.inj performed
    split at put
    · cases put
    · exact packs.unwritten holds blob.2 put
  | delete key =>
    rw [delete_error_eq (Option.some.inj performed)]
    exact packs
  | replaceKey old new =>
    rw [replaceKey_error_eq (Option.some.inj performed)]
    exact packs
  | flush => cases (flush_of_perform performed).1
  | reopen settings => cases (reopen_of_perform performed).1

/-- The archives that operations lead to over a container, with the methods that the blobs under
their keys were last stored by. Going on after a flush that has failed is allowed. -/
inductive Written (base : Container) : Archive → MethodMap → Prop where
  | layered {settings : ArchiveSettings} {archive : Archive} {file : File}
      (made : ofContainer base settings = (.ok archive, file)) : Written base archive fun _ => none
  | done {archive next : Archive} {methods : MethodMap} (written : Written base archive methods)
      (act : ArchiveAct) (performed : archive.perform act = some (.ok (), next)) :
      Written base next (act.chosen archive.settings.compression methods)
  | refused {archive next : Archive} {methods : MethodMap} (written : Written base archive methods)
      (act : ArchiveAct) {fault : Fault}
      (performed : archive.perform act = some (.error fault, next)) : Written base next methods
  | flushed {archive : Archive} {methods : MethodMap} (written : Written base archive methods) :
      Written base archive.flush.2 methods

theorem Written.packs (sound : base.Sound) (rootless : base.root = none)
    (written : Written base archive methods) :
    (∃ map, archive.Holds map) ∧ Packs archive methods := by
  induction written with
  | layered made =>
    obtain ⟨legal, after, created⟩ := createIn_of_layered rootless made
    obtain ⟨_, _, _, _, _, _, _, rfl, _⟩ := createIn_ok created
    exact ⟨⟨_, holds_createIn sound legal created⟩, fun _ => .none⟩
  | done _ act performed kept =>
    obtain ⟨⟨map, holds⟩, packs⟩ := kept
    exact ⟨⟨_, holds.perform performed⟩, packs.done holds performed⟩
  | refused _ act performed kept =>
    obtain ⟨⟨map, holds⟩, packs⟩ := kept
    exact ⟨⟨_, holds.perform performed⟩, packs.refused holds performed⟩
  | flushed _ kept =>
    obtain ⟨⟨map, holds⟩, packs⟩ := kept
    exact ⟨⟨map, holds.flush_any⟩, packs.stays holds holds.stays_flush⟩

/-- The slots of entries that methods gave have sizes, and those that differ from the length of the
blob are counted as compressed. -/
theorem storedSizes_of_bears {container : Container} (entries : List ArchiveEntry)
    (known : ∀ entry ∈ entries, ∃ method, methods entry.key = some method ∧
      Bears container entry method) :
    ∃ sizes, (entries.mapM fun entry => container.entrySize entry.slot) = .ok sizes ∧
      ((sizes.zip (entries.map (·.uncompressedSize))).countP fun pair => pair.1 != pair.2) =
        (entries.map (·.key)).countP fun key => methods key = some .lz4 := by
  induction entries with
  | nil => exact ⟨[], rfl, rfl⟩
  | cons entry rest ih =>
    obtain ⟨⟨method, held, bears⟩, others⟩ := List.forall_mem_cons.mp known
    obtain ⟨sizes, listed, counted⟩ := ih others
    obtain ⟨stored, read, told⟩ := bears
    obtain ⟨region, live, size⟩ := Container.liveRegion_of_read read
    have own := (Container.entry_of_live live).1
    have compressed : (region.size != entry.uncompressedSize) =
        decide (methods entry.key = some .lz4) := by
      rw [Bool.eq_iff_iff, bne_iff_ne, decide_eq_true_iff, held, Option.some.injEq, ← size]
      exact told
    refine ⟨region.size :: sizes, ?_, ?_⟩
    · rw [List.mapM_cons, own, listed]
      rfl
    · rw [List.map_cons, List.map_cons, List.zip_cons_cons, List.countP_cons, List.countP_cons,
        counted, compressed]

/-- Detecting compression by size is unambiguous. Under settings in range a blob is stored as it is,
or compressed to fewer bytes. After every write that succeeds, in whatever archive, the size of the
entry's slot differs from the recorded length just where the compressing method was chosen, and the
blob is read back under any settings. So it stays in every archive that is laid over a container
without a root that can be reached, and operated on in any way: every entry is expanded by the method
it was last written by, and as many entries are counted as compressed as were last written
compressed. -/
theorem detection_of_written :
    (∀ settings blob, CompressionSettings.check settings = .ok () →
      packBlob settings blob = (blob, .plain) ∨ packBlob settings blob = (Lz4.compress blob, .lz4) ∧
        (Lz4.compress blob).length < blob.length) ∧
    (∀ (archive next : Archive) key blob overwrite, archive.settings.check = .ok () →
      archive.write key blob overwrite = (.ok (), next) →
        ∃ entry size, next.catalog.lookup? key = some entry ∧
          entry.uncompressedSize = blob.length ∧ next.container.entrySize entry.slot = .ok size ∧
          (size ≠ entry.uncompressedSize ↔
            (packBlob archive.settings.compression blob).2 = .lz4) ∧
          ∀ settings, { next with settings := settings }.get key = .ok blob) ∧
    ∀ base archive methods, Container.Reachable base → base.root = none →
      Written base archive methods →
        (∀ key, (archive.catalog.lookup? key).isSome = (methods key).isSome) ∧
        (∀ key entry, archive.catalog.lookup? key = some entry → ∃ method stored,
          methods key = some method ∧ archive.container.read entry.slot = .ok stored ∧
            archive.container.entrySize entry.slot = .ok stored.length ∧
            (stored.length ≠ entry.uncompressedSize ↔ method = .lz4) ∧
            ∀ settings, { archive with settings := settings }.get key =
              (method.decompress stored entry.uncompressedSize).mapError .compression) ∧
        ∃ stats, archive.stats = .ok stats ∧
          stats.compressedEntries =
            archive.catalog.keys.countP fun key => methods key = some .lz4 := by
  refine ⟨fun settings blob legal => packBlob_cases legal blob, ?write, ?run⟩
  case write =>
    intro archive next key blob overwrite legal written
    obtain ⟨entry, found, length, bears, gives⟩ := bears_of_write legal written
    obtain ⟨stored, _, size, told, _⟩ := get_of_bears found bears
    exact ⟨entry, _, found, length, size, told, fun _ => gives⟩
  case run =>
    intro base archive methods reached rootless written
    obtain ⟨⟨map, holds⟩, packs⟩ := written.packs reached.sound rootless
    refine ⟨packs.has, fun key entry found => ?_, ?_⟩
    · obtain ⟨method, known, bears⟩ := packs.bears found
      obtain ⟨stored, read, size, told, gives⟩ := get_of_bears found bears
      exact ⟨method, stored, known, read, size, told, fun _ => gives⟩
    · have known (entry : ArchiveEntry) (member : entry ∈ archive.catalog) :=
        packs.bears (holds.sorted.lookup? member)
      obtain ⟨sizes, listed, counted⟩ := storedSizes_of_bears archive.catalog known
      unfold Archive.stats Archive.storedSizes
      rw [listed]
      exact ⟨_, rfl, counted⟩

/-- Thirteen zeros are one byte, a copy of it over six more, and six last literals. -/
theorem factor_zeros : Lz4.factor (Bytes.zeros 13) = ⟨[⟨[0], 1, 6⟩], Bytes.zeros 6⟩ := by
  have data : (Bytes.zeros 13).toArray = Array.replicate 13 0 := rfl
  have empty (slot : Nat) : (Array.replicate 4096 0).getD slot 0 = 0 := by
    simp only [Array.getD_eq_getD_getElem?, Array.getElem?_replicate]
    split <;> rfl
  obtain ⟨after, found⟩ : ∃ after, Lz4.search (Array.replicate 13 0) (Array.replicate 4096 0) 1 0 =
      (after, some (1, 0)) := by
    unfold Lz4.search
    simp only [empty]
    exact ⟨_, by rw [if_neg (by decide), if_pos (by decide)]⟩
  have back : Lz4.sharedBefore (Array.replicate 13 0) 0 1 0 = 0 := rfl
  have stop : Lz4.matchEnd (Array.replicate 13 0) 7 5 4 = 7 := by
    simp [Lz4.matchEnd, Lz4.byteAt]
  have last (table : Array Nat) : Lz4.factorFrom (Array.replicate 13 0) table 7 7 = ([], 7) := by
    unfold Lz4.factorFrom Lz4.search
    rw [if_pos (by decide)]
  unfold Lz4.factor
  rw [data]
  simp only
  rw [if_neg (by decide)]
  unfold Lz4.factorFrom
  rw [found]
  simp [back, stop, Lz4.matchMargin, last]
  rfl

theorem packBlob_zeros : packBlob { enabled := true, threshold := 4 } (Bytes.zeros 13) =
    ([18, 0, 1, 0, 96, 0, 0, 0, 0, 0, 0], .lz4) := by
  have packed : Lz4.compress (Bytes.zeros 13) = [18, 0, 1, 0, 96, 0, 0, 0, 0, 0, 0] := by
    unfold Lz4.compress
    rw [factor_zeros]
    decide
  unfold packBlob
  rw [if_neg (by decide), packed]
  decide +kernel

theorem write_new {key : ContentKey} {blob stored : Bytes} {method : CompressionMethod} {slot : Nat}
    (absent : archive.catalog.lookup? key = none)
    (packed : packBlob archive.settings.compression blob = (stored, method))
    (chosen : (archive.container.newEntry stored.length).1 = .ok slot)
    (filled : ((archive.container.newEntry stored.length).2.fill slot stored).1 = .ok ())
    (overwrite : Bool) :
    archive.write key blob overwrite = (.ok (), { archive with
      container := ((archive.container.newEntry stored.length).2.fill slot stored).2
      catalog := archive.catalog.put ⟨key, slot, blob.length⟩
      dirty := true }) := by
  unfold Archive.write chooseSlot storeIn
  rcases made : archive.container.newEntry stored.length with ⟨_, after⟩
  rw [made] at chosen filled
  cases chosen
  rcases done : after.fill slot stored with ⟨_, ready⟩
  rw [done] at filled
  cases filled
  simp [absent, packed, made, done]

/-- Of two blobs one is stored compressed, the other is too short for that. -/
theorem detection_of_two_blobs : ∃ archive methods, Container.Reachable (Container.create {}) ∧
    Written (Container.create {}) archive methods ∧
    methods (ContentKey.replicate 7) = some .lz4 ∧ methods (ContentKey.replicate 8) = some .plain ∧
    ∃ stats, archive.stats = .ok stats ∧ stats.compressedEntries = 1 := by
  let settings : ArchiveSettings := { compression := { enabled := true, threshold := 4 } }
  have ran : (ofContainer (Container.create {}) settings).1.toOption.any (fun archive =>
      let chosen := archive.container.newEntry 11
      let filled := chosen.2.fill 2 [18, 0, 1, 0, 96, 0, 0, 0, 0, 0, 0]
      let first : Archive := { archive with
        container := filled.2
        catalog := archive.catalog.put ⟨ContentKey.replicate 7, 2, 13⟩
        dirty := true }
      let second := first.write (ContentKey.replicate 8) [1, 2, 3] false
      decide (archive.settings = settings ∧ archive.catalog = [] ∧ chosen.1 = .ok 2 ∧
        filled.1 = .ok () ∧ second.1 = .ok () ∧
        second.2.catalog.keys = [ContentKey.replicate 7, ContentKey.replicate 8])) = true := by
    decide +kernel
  have reached : Container.Reachable (Container.create {}) :=
    Container.reachable_create (by decide +kernel)
  rcases layered : ofContainer (Container.create {}) settings with ⟨_ | archive, file⟩
  · rw [layered] at ran
    cases ran
  · rw [layered] at ran
    simp only [Except.toOption, Option.any_some, decide_eq_true_eq] at ran
    obtain ⟨own, empty, chosen, filled, second, keys⟩ := ran
    have absent : archive.catalog.lookup? (ContentKey.replicate 7) = none := by
      rw [empty]
      rfl
    have packed : packBlob archive.settings.compression (Bytes.zeros 13) =
        ([18, 0, 1, 0, 96, 0, 0, 0, 0, 0, 0], .lz4) := by
      rw [own]
      exact packBlob_zeros
    have plain : (packBlob archive.settings.compression [1, 2, 3]).2 = .plain := by
      rw [own]
      rfl
    have written := write_new absent packed chosen filled false
    obtain ⟨methods, stored, large, small⟩ : ∃ methods, Written _ _ methods ∧
        methods (ContentKey.replicate 7) = some .lz4 ∧
        methods (ContentKey.replicate 8) = some .plain := by
      refine ⟨_, .done (.done (.layered layered)
        (.write (ContentKey.replicate 7) ⟨Bytes.zeros 13, by decide⟩ false) (congrArg some written))
        (.write (ContentKey.replicate 8) ⟨[1, 2, 3], by decide⟩ false)
        (congrArg some (Prod.ext second rfl)), ?_, ?_⟩ <;> simp only [ArchiveAct.chosen]
      · rw [Function.update_of_ne (by decide), Function.update_self, packed]
      · rw [Function.update_self, plain]
    obtain ⟨_, _, stats, counted, total⟩ := detection_of_written.2.2 _ _ _ reached rfl stored
    refine ⟨_, methods, reached, stored, large, small, stats, counted, ?_⟩
    rw [total]
    exact (congrArg (List.countP _) keys).trans (by simp [large, small])

end Archive

end SlotStore
