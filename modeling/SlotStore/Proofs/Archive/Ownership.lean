import SlotStore.Proofs.Archive.Runs

/-!
Ownership of slots. An archive may be laid over a container that others use. Its own slots and
theirs are all the live ones, no slot has two owners, and what others have stored stays as it is.
-/

namespace SlotStore.Archive

open scoped List

/-- The archives that operations lead to over a container. Going on after a flush that has failed is
allowed; closing must succeed for the file to be opened again. -/
inductive Tended (base : Container) : Archive → Prop where
  | layered {settings : ArchiveSettings} {archive : Archive} {file : File}
      (made : ofContainer base settings = (.ok archive, file)) : Tended base archive
  | step {archive next : Archive} {result : Except Fault Unit} (tended : Tended base archive)
      (act : ArchiveAct) (performed : archive.perform act = some (result, next)) : Tended base next
  | flushed {archive : Archive} (tended : Tended base archive) : Tended base archive.flush.2

/-- The live slots are those of the archive and those that the container had, and the latter are as
they were. -/
structure Tends (base : Container) (archive : Archive) : Prop where
  entries : archive.container.entries ~ archive.owned ++ base.entries
  spares : ∀ slot ∈ base.entries, Container.Spares slot base archive.container

variable {base : Container} {archive next : Archive} {map : KeyMap}

theorem Tends.nodup (tends : Tends base archive) : (archive.owned ++ base.entries).Nodup :=
  tends.entries.nodup_iff.mp archive.container.nodup_entries

theorem Tends.apart (tends : Tends base archive) {slot : Nat} (member : slot ∈ archive.owned) :
    slot ∉ base.entries :=
  fun other => (List.nodup_append.mp tends.nodup).2.2 slot member slot other rfl

theorem Tends.unowned (tends : Tends base archive) {slot : Nat}
    (fresh : slot ∉ archive.container.entries) : slot ∉ base.entries :=
  fun other => fresh (tends.entries.mem_iff.mpr (List.mem_append_right _ other))

/-- Slots change hands: the live slots lose and gain what the archive has lost and gained. -/
theorem Tends.trade (tends : Tends base archive) (lost gained : List Nat) {beside : List Nat}
    (before : archive.owned ~ lost ++ beside) (after : next.owned ~ gained ++ beside)
    (exchanged : lost ++ next.container.entries ~ gained ++ archive.container.entries)
    (keeps : Container.Keeps base.entries archive.container next.container) : Tends base next where
  entries := by
    refine (List.perm_append_left_iff lost).mp ?_
    calc lost ++ next.container.entries
        ~ gained ++ archive.container.entries := exchanged
      _ ~ gained ++ (lost ++ beside ++ base.entries) :=
        (tends.entries.trans (before.append_right _)).append_left _
      _ = gained ++ (lost ++ (beside ++ base.entries)) := by rw [List.append_assoc lost]
      _ ~ lost ++ (gained ++ (beside ++ base.entries)) := List.perm_append_comm_assoc ..
      _ = lost ++ (gained ++ beside ++ base.entries) := by rw [List.append_assoc gained]
      _ ~ lost ++ (next.owned ++ base.entries) := (after.symm.append_right _).append_left _
  spares := fun slot member => (tends.spares slot member).trans (keeps.spares slot member)

theorem Tends.keep (tends : Tends base archive) (owned : next.owned ~ archive.owned)
    (entries : next.container.entries ~ archive.container.entries)
    (keeps : Container.Keeps base.entries archive.container next.container) : Tends base next :=
  tends.trade [] [] (.refl _) owned entries keeps

theorem Tends.refused (tends : Tends base archive) (holds : archive.Holds map) {size : Nat}
    {fault : Fault} {new : Container}
    (failed : archive.container.newEntry size = (.error fault, new)) :
    Tends base { archive with container := new } := by
  have keeps := Container.keeps_newEntry holds.sound base.entries size
  rw [failed] at keeps
  exact tends.keep (.refl _) (Container.entries_newEntry_error failed) keeps

theorem createIn_of_layered (rootless : base.root = none) {settings : ArchiveSettings} {file : File}
    (made : ofContainer base settings = (.ok archive, file)) :
    settings.check = .ok () ∧ ∃ after, createIn base settings = (.ok archive, after) := by
  obtain ⟨legal, ⟨_, created⟩ | ⟨_, anchored, _⟩⟩ := ofContainer_cases made
  · exact ⟨legal, created⟩
  · cases rootless.symm.trans anchored

theorem tends_createIn (sound : base.Sound) {settings : ArchiveSettings} {after : Container}
    (created : createIn base settings = (.ok archive, after)) : Tends base archive := by
  obtain ⟨slot, allocated, filled, region, entered, written, _, rfl, _⟩ := createIn_ok created
  have grown := Container.entries_newEntry sound entered
  have fresh : slot ∉ base.entries :=
    (List.nodup_cons.mp (grown.nodup_iff.mp allocated.nodup_entries)).1
  have soundNew := sound.newEntry RootRecord.width
  rw [entered] at soundNew
  constructor
  · have anchored := (filled.entries_setRoot slot).trans
      (congrArg Prod.snd written ▸ allocated.entries_write slot _ 0)
    exact anchored.trans grown
  · intro other member
    have different : slot ≠ other := fun same => fresh (same ▸ member)
    have handed := Container.Spares.newEntry sound RootRecord.width other
    have stored := Container.Spares.write soundNew (RootRecord.ofArchive 0 0).encode 0 different
    rw [entered] at handed
    rw [written] at stored
    exact (handed.trans stored).trans (Container.Spares.setRoot filled other slot)

/-- Choosing a slot makes the entry's own slot do or hands out one that no one had. -/
theorem Tends.choose (tends : Tends base archive) (holds : archive.Holds map) {key : ContentKey}
    {length slot : Nat} {new : Container}
    (chosen : chooseSlot archive.container (archive.catalog.lookup? key) length = (.ok slot, new)) :
    Container.Keeps base.entries archive.container new ∧ slot ∉ base.entries ∧
      ((∃ entry, archive.catalog.lookup? key = some entry ∧ entry.slot = slot ∧
          new = archive.container) ∨
        slot ∉ archive.container.entries ∧ new.entries ~ slot :: archive.container.entries) := by
  rcases holds.chooseSlot_cases key length with ⟨entry, region, found, live, _, own⟩ | handed
  · rw [chosen] at own
    cases own
    exact ⟨Container.Keeps.refl holds.sound _, tends.apart (mem_owned_of_lookup? found),
      Or.inl ⟨entry, found, rfl, rfl⟩⟩
  · have made := handed.symm.trans chosen
    have keeps := Container.keeps_newEntry holds.sound base.entries length
    rw [made] at keeps
    have grown := Container.entries_newEntry holds.sound made
    have fresh := (List.nodup_cons.mp (grown.nodup_iff.mp new.nodup_entries)).1
    exact ⟨keeps, tends.unowned fresh, Or.inr ⟨fresh, grown⟩⟩

/-- A stored form costs one slot, and gives back the slot that its key had before. -/
theorem Tends.store (tends : Tends base archive) (holds : archive.Holds map) {key : ContentKey}
    {length slot : Nat} {allocated after : Container} {stored : Bytes}
    (chosen : chooseSlot archive.container (archive.catalog.lookup? key) length =
      (.ok slot, allocated))
    (done : storeIn allocated (archive.catalog.lookup? key) slot stored = (.ok (), after)) :
    Container.Keeps base.entries archive.container after ∧
      (archive.catalog.lookup? key).toList.map (·.slot) ++ after.entries ~
        slot :: archive.container.entries := by
  obtain ⟨keeps, free, origin⟩ := tends.choose holds chosen
  obtain ⟨full, filled, left⟩ := storeIn_ok done
  have filling := Container.keeps_fill keeps.sound free stored
  have same := allocated.entries_fill slot stored
  rw [filled] at filling same
  rcases left with ⟨own, rfl⟩ | ⟨entry, found, different, rfl⟩
  -- nothing is released, as the entry has the chosen slot already or there is no entry
  · refine ⟨keeps.trans filling, ?_⟩
    rcases origin with ⟨entry, found, rfl, rfl⟩ | ⟨fresh, grown⟩
    · simpa [found] using same.cons entry.slot
    · cases found : archive.catalog.lookup? key with
      | none => exact same.trans grown
      | some entry =>
        exact absurd (own entry found ▸ holds.listed (mem_owned_of_lookup? found)) fresh
  -- the entry leaves its slot, which is still live when it is released
  · rcases origin with ⟨other, named, rfl, rfl⟩ | ⟨_, grown⟩
    · exact absurd (congrArg ArchiveEntry.slot (Option.some.inj (found.symm.trans named))) different
    · have moved := same.trans grown
      have member := mem_owned_of_lookup? found
      obtain ⟨region, live⟩ := (Container.mem_entries_iff_live filling.sound).mp
        (moved.mem_iff.mpr (List.mem_cons_of_mem _ (holds.listed member)))
      have releasing := Container.keeps_release filling.sound (tends.apart member)
      refine ⟨(keeps.trans filling).trans releasing, ?_⟩
      simpa [found] using (Container.entries_release live).symm.trans moved

theorem Holds.owned_split (holds : archive.Holds map) (key : ContentKey) :
    archive.owned ~ (archive.catalog.lookup? key).toList.map (·.slot) ++ archive.ownedBeside key := by
  cases found : archive.catalog.lookup? key with
  | none => simp [owned, ownedBeside, Catalog.without_of_lookup?_none found]
  | some entry => exact archive.owned_perm (holds.sorted.slots_perm found)

theorem Tends.write (tends : Tends base archive) (holds : archive.Holds map) (key : ContentKey)
    {blob : Bytes} (short : blob.length < 2 ^ 63) (overwrite : Bool) :
    Tends base (archive.write key blob overwrite).2 := by
  rcases holds.write_cases key short overwrite with
    ⟨fault, new, refused, _, failure⟩ |
      ⟨slot, new, written, _, _, _, _, length, allocated, stored, chosen, done⟩
  · rw [refused]
    rcases failure with rfl | ⟨length, chosen⟩
    · exact tends
    · exact tends.refused holds (holds.chooseSlot_error chosen)
  · rw [written]
    obtain ⟨keeps, exchanged⟩ := tends.store holds chosen done
    exact tends.trade _ [slot] (holds.owned_split key)
      (owned_put archive new ⟨key, slot, blob.length⟩) exchanged keeps

theorem Tends.put (tends : Tends base archive) (holds : archive.Holds map) {blob : Bytes}
    (short : blob.length < 2 ^ 63) : Tends base (archive.put blob).2 := by
  rcases archive.put_cases blob with same | written
  · rw [same]
    exact tends
  · rw [written]
    exact tends.write holds _ short false

theorem Tends.delete (tends : Tends base archive) (holds : archive.Holds map) (key : ContentKey) :
    Tends base (archive.delete key).2 := by
  rcases holds.delete_cases key with ⟨_, refused⟩ | ⟨entry, region, found, live, deleted⟩
  · rw [refused]
    exact tends
  · rw [deleted]
    exact tends.trade [entry.slot] []
      (archive.owned_perm (holds.sorted.slots_perm found)) (.refl _)
      (Container.entries_release live).symm
      (Container.keeps_release holds.sound (tends.apart (mem_owned_of_lookup? found)))

theorem Tends.replaceKey (tends : Tends base archive) (holds : archive.Holds map)
    (old new : ContentKey) : Tends base (archive.replaceKey old new).2 := by
  rcases archive.replaceKey_cases old new with ⟨_, refused⟩ | ⟨entry, found, absent, replaced⟩
  · rw [refused]
    exact tends
  · have renamed := owned_put { archive with
      catalog := archive.catalog.without old, dirty := true } archive.container
        { entry with key := new }
    rw [ownedBeside_without absent] at renamed
    rw [replaced]
    exact tends.keep (renamed.trans (archive.owned_perm (holds.sorted.slots_perm found)).symm)
      (.refl _) (Container.Keeps.refl holds.sound _)

theorem Tends.relocate (tends : Tends base archive) (holds : archive.Holds map) {size slot : Nat}
    {new : Container} (made : archive.container.newEntry size = (.ok slot, new)) :
    Tends base { archive with container := archive.leaveTable new, headerTable := some slot } := by
  have grown := Container.entries_newEntry holds.sound made
  have keeps := Container.keeps_newEntry holds.sound base.entries size
  rw [made] at keeps
  have after : owned { archive with
      container := archive.leaveTable new, headerTable := some slot } ~
        [slot] ++ (archive.rootSlot :: archive.catalog.slots) := List.Perm.swap ..
  have before : archive.owned ~
      archive.headerTable.toList ++ (archive.rootSlot :: archive.catalog.slots) :=
    List.perm_middle.symm
  suffices archive.headerTable.toList ++ (archive.leaveTable new).entries ~ new.entries ∧
      Container.Keeps base.entries archive.container (archive.leaveTable new) from
    tends.trade _ _ before after (this.1.trans grown) this.2
  unfold leaveTable
  cases named : archive.headerTable with
  | none => exact ⟨.refl _, keeps⟩
  | some old =>
    have member : old ∈ archive.owned := by simp [owned, named]
    obtain ⟨region, live⟩ := (Container.mem_entries_iff_live keeps.sound).mp
      (grown.mem_iff.mpr (List.mem_cons_of_mem _ (holds.listed member)))
    exact ⟨(Container.entries_release live).symm,
      keeps.trans (Container.keeps_release keeps.sound (tends.apart member))⟩

theorem Tends.ensureHeaderTable (tends : Tends base archive) (holds : archive.Holds map) :
    Tends base archive.ensureHeaderTable.2 := by
  rcases holds.ensureHeaderTable_cases with
    ⟨ready, _⟩ | ⟨fault, new, refused, failed⟩ | ⟨slot, new, made, moved⟩
  · rw [ready]
    exact tends
  · rw [failed]
    exact tends.refused holds refused
  · rw [moved]
    exact tends.relocate holds made

theorem Tends.fill (tends : Tends base archive) (holds : archive.Holds map) {slot : Nat}
    (member : slot ∈ archive.owned) (data : Bytes) :
    Tends base { archive with container := (archive.container.fill slot data).2 } :=
  tends.keep (.refl _) (archive.container.entries_fill slot data)
    (Container.keeps_fill holds.sound (tends.apart member) data)

theorem Tends.fillTables (tends : Tends base archive) (holds : archive.Holds map)
    (dirty : archive.dirty = true) : Tends base archive.fillTables.2 := by
  have between : Tends base { archive with container := archive.tableFilled } := by
    rcases Option.eq_none_or_eq_some archive.headerTable with none | ⟨slot, named⟩
    · rw [tableFilled_of_none none]
      exact tends
    · rw [tableFilled_of_some named]
      exact tends.fill holds (by simp [owned, named]) _
  rcases archive.fillTables_cases with ⟨_, _, _, _, failed⟩ | ⟨_, filled⟩
  · rw [failed]
    exact between
  · rw [filled]
    exact between.fill (holds.tableFilled dirty) (List.mem_cons_self ..) _

theorem Tends.writeTables (tends : Tends base archive) (holds : archive.Holds map)
    (dirty : archive.dirty = true) : Tends base archive.writeTables.2 := by
  unfold Archive.writeTables
  split
  · exact tends
  · obtain ⟨ready, still, _⟩ := holds.ensureHeaderTable dirty
    have roomy := tends.ensureHeaderTable holds
    rcases ensured : archive.ensureHeaderTable with ⟨_ | _, next⟩
    · rw [ensured] at roomy
      exact roomy
    · rw [ensured] at ready still roomy
      exact roomy.fillTables ready still

theorem Tends.flush (tends : Tends base archive) (holds : archive.Holds map) :
    Tends base archive.flush.2 := by
  rcases archive.flush_cases with ⟨_, dirty, _, failed⟩ | ⟨ready, readied, stored⟩
  · rw [failed]
    exact tends.writeTables holds dirty
  · have kept := (holds.readied readied).1
    have tended : Tends base ready := by
      rcases readied with ⟨_, rfl⟩ | ⟨dirty, _, rfl⟩
      · exact tends
      · have written := tends.writeTables holds dirty
        exact ⟨written.entries, written.spares⟩
    rw [stored]
    exact tended.keep (.refl _) (Container.entries_flush kept.sound)
      (Container.keeps_flush kept.sound _)

theorem Tends.reopen (tends : Tends base archive) (holds : archive.Holds map) {settings : Settings}
    (reopened : archive.reopen settings = some next) : Tends base next := by
  obtain ⟨stored, flushed, kept, saved, _, rfl⟩ := holds.reopen_eq reopened
  have tended := tends.flush holds
  rw [flushed] at tended
  exact tended.keep (.refl _) (Container.entries_reloaded _ _)
    (Container.keeps_reloaded kept.sound (clean_of_saved saved).2 _ _)

theorem Tends.perform (tends : Tends base archive) (holds : archive.Holds map) {act : ArchiveAct}
    {result : Except Fault Unit} (performed : archive.perform act = some (result, next)) :
    Tends base next :=
  of_perform (fun key blob overwrite => tends.write holds key blob.2 overwrite)
    (fun blob => tends.put holds blob.2) (tends.delete holds) (tends.replaceKey holds)
    (tends.flush holds) (fun _ _ => tends.reopen holds) performed

theorem Tended.tends (sound : base.Sound) (rootless : base.root = none)
    (tended : Tended base archive) : (∃ map, archive.Holds map) ∧ Tends base archive := by
  induction tended with
  | layered made =>
    obtain ⟨legal, after, created⟩ := createIn_of_layered rootless made
    exact ⟨⟨_, holds_createIn sound legal created⟩, tends_createIn sound created⟩
  | step _ act performed kept =>
    obtain ⟨⟨map, holds⟩, tends⟩ := kept
    exact ⟨⟨_, holds.perform performed⟩, tends.perform holds performed⟩
  | flushed _ kept =>
    obtain ⟨⟨map, holds⟩, tends⟩ := kept
    exact ⟨⟨map, holds.flush_any⟩, tends.flush holds⟩

/-- An archive is laid over a container without a root that can be reached, and operated on in any
way. Its anchor slot, its header table slot, the slots of its entries and the live slots that the
container had are different slots, live and not the slot table's, and there are no other live ones
but the slot table's. The slots that the container had keep their size and their bytes. -/
theorem ownership_of_tended (reached : Container.Reachable base) (rootless : base.root = none)
    (tended : Tended base archive) :
    (archive.owned ++ base.entries).Nodup ∧
      archive.container.entries ~ archive.owned ++ base.entries ∧
      (∀ slot ∈ archive.owned ++ base.entries,
        ∃ region, archive.container.liveRegion slot = .ok region) ∧
      ∀ slot ∈ base.entries, ∃ region bytes, base.liveRegion slot = .ok region ∧
        archive.container.liveRegion slot = .ok region ∧ base.read slot = .ok bytes ∧
          archive.container.read slot = .ok bytes := by
  obtain ⟨⟨map, holds⟩, tends⟩ := tended.tends reached.sound rootless
  refine ⟨tends.nodup, tends.entries, fun slot member => ?_, fun slot member => ?_⟩
  · exact (Container.mem_entries_iff_live holds.sound).mp (tends.entries.mem_iff.mpr member)
  · obtain ⟨region, live⟩ := (Container.mem_entries_iff_live reached.sound).mp member
    obtain ⟨still, same⟩ := (tends.spares slot member).read reached.sound holds.sound live
    have held := Container.read_of_live reached.sound live
    exact ⟨region, _, live, still, held, same.trans held⟩

/-- The anchor reuses the slot that was released, the entry and the header table get new ones. -/
theorem ownership_of_shared_container :
    ∃ base archive, Container.Reachable base ∧ base.root = none ∧ base.entries = [2] ∧
      Tended base archive ∧ archive.owned = [1, 4, 3] ∧
      archive.container.entries ~ [1, 4, 3] ++ [2] ∧
      archive.container.liveRegion 2 = .ok ⟨0x258, 2, 16⟩ ∧
      archive.container.read 2 = base.read 2 := by
  have created : Container.Reachable (Container.create {}) :=
    Container.reachable_create (by decide +kernel)
  have first := created.step (.newEntry 5) rfl
  have second := first.step (.newEntry 7) rfl
  have written := second.step (.write 2 [8, 9] 0) rfl
  obtain ⟨base, reached, ⟨rootless, listed, raw⟩, ran⟩ : ∃ base, Container.Reachable base ∧
      (base.root = none ∧ base.entries = [2] ∧ base.liveRegion 2 = .ok ⟨0x258, 2, 16⟩) ∧
      ((ofContainer base {}).1.toOption.map fun archive =>
        (archive.write (ContentKey.replicate 7) [1, 2, 3] false).2.flush.2.owned) =
          some [1, 4, 3] :=
    ⟨_, written.step (.release 1) rfl, by decide +kernel, by decide +kernel⟩
  rcases layered : ofContainer base {} with ⟨_ | archive, file⟩
  · rw [layered] at ran
    cases ran
  · rw [layered] at ran
    simp only [Except.toOption, Option.map_some, Option.some.injEq] at ran
    have tended : Tended base
        (archive.write (ContentKey.replicate 7) [1, 2, 3] false).2.flush.2 :=
      .flushed (.step (.layered layered)
        (.write (ContentKey.replicate 7) ⟨[1, 2, 3], by decide⟩ false) rfl)
    obtain ⟨_, entries, _, kept⟩ := ownership_of_tended reached rootless tended
    obtain ⟨region, bytes, live, still, before, after⟩ := kept 2 (by simp [listed])
    rw [ran, listed] at entries
    exact ⟨base, _, reached, rootless, listed, tended, ran, entries,
      still.trans (live.symm.trans raw), after.trans before.symm⟩

end SlotStore.Archive
